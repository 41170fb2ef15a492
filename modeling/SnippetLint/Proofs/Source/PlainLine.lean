import SnippetLint.Proofs.Source.LineBreak

/-! A new last line without quotes and slashes. It closes nothing that the text before it leaves
open, be that a template or a block comment, so masking shows it as it is and the rest as before. -/
namespace SnippetLint.Source

/-- A character that neither opens a token nor closes one. -/
def isInert (c : Char) : Bool := c != '/' && !Lexeme.isQuote c

theorem isInert_iff {c : Char} : isInert c = true ↔ c ≠ '/' ∧ Lexeme.isQuote c = false := by
  rw [isInert, Bool.and_eq_true, bne_iff_ne, Bool.not_eq_true']

variable {quote c : Char} {text line : List Char}

theorem Unclosed.of_not_mem (h : quote ∉ text) : Unclosed quote text := by
  unfold Unclosed
  fun_induction Lexeme.quotedBody? quote text with
  | case1 | case3 | case4 | case5 => rfl
  | case2 => exact absurd List.mem_cons_self h
  | case6 _ _ _ _ _ ih =>
    rw [ih fun hq => h (List.mem_cons_of_mem _ (List.mem_cons_of_mem _ hq)), Option.map_none]
  | case7 _ _ _ _ _ ih => rw [ih fun hq => h (List.mem_cons_of_mem _ hq), Option.map_none]

theorem blockBody?_of_slash_not_mem (h : '/' ∉ text) : Lexeme.blockBody? text = none := by
  induction text with
  | nil => rfl
  | cons c cs ih =>
    rw [List.mem_cons, not_or] at h
    refine Lexeme.blockBody?_cons_eq_none_iff.mpr ⟨fun hend => h.2 ?_, ih h.2⟩
    exact List.mem_of_mem_head? hend.2

/-- Where no block comment ends before the line feed, none ends after it without a slash. -/
theorem blockBody?_append_of_slash_not_mem (h : Lexeme.blockBody? text = none)
    (hline : '/' ∉ '\n' :: line) : Lexeme.blockBody? (text ++ '\n' :: line) = none := by
  induction text with
  | nil => exact blockBody?_of_slash_not_mem hline
  | cons c cs ih =>
    obtain ⟨hend, hrest⟩ := Lexeme.blockBody?_cons_eq_none_iff.mp h
    refine Lexeme.blockBody?_cons_eq_none_iff.mpr ⟨fun ⟨hc, hs⟩ => hend ⟨hc, ?_⟩, ih hrest⟩
    cases cs with
    | nil => exact absurd (Option.some.inj hs) (by decide)
    | cons d cs => exact hs

theorem slash_not_mem (h : ∀ d ∈ line, isInert d = true) : '/' ∉ '\n' :: line := by
  rw [List.mem_cons, not_or]
  exact ⟨by decide, fun hs => (isInert_iff.mp (h '/' hs)).1 rfl⟩

theorem quote_not_mem (hq : Lexeme.isQuote quote = true) (h : ∀ d ∈ line, isInert d = true) :
    quote ∉ '\n' :: line := by
  rw [List.mem_cons, not_or]
  refine ⟨Lexeme.ne_of_isQuote hq rfl, fun hm => ?_⟩
  rw [(isInert_iff.mp (h quote hm)).2] at hq
  exact absurd hq (by decide)

theorem keepsOpen_plainLine (hq : Lexeme.isQuote quote = true)
    (h : ∀ d ∈ line, isInert d = true) : KeepsOpen quote ('\n' :: line) [] where
  fresh _ := .of_not_mem (quote_not_mem hq h)
  escaped _ := by
    refine .of_not_mem (List.not_mem_cons_of_ne_of_not_mem ?_ (quote_not_mem hq h))
    exact Lexeme.ne_backslash_of_isQuote hq

theorem next_append_plainLine (h : (Lexeme.next c text).1 = .plain c)
    (hline : ∀ d ∈ line, isInert d = true) :
    (Lexeme.next c (text ++ '\n' :: line)).1 = .plain c := by
  refine Lexeme.next_of_plain_before h ?_ ?_ fun hq hu => ?_
  · cases text with
    | nil => exact fun _ hs => absurd (Option.some.inj hs) (by decide)
    | cons d text => exact id
  · intro _ es hes
    cases text with
    | nil => exact absurd (List.cons.inj hes).1 (by decide)
    | cons d text =>
      obtain ⟨rfl, rfl⟩ := List.cons.inj hes
      exact ⟨text, rfl, fun hb => blockBody?_append_of_slash_not_mem hb (slash_not_mem hline)⟩
  · rw [← List.append_nil text] at hu
    have hb := Lexeme.ne_backslash_of_isQuote hq
    exact ((keepsOpen_plainLine hq hline).append_left hb text).fresh hu

theorem lexemes_of_inert (h : ∀ d ∈ line, isInert d = true) :
    lexemes line = line.map .plain := by
  induction line with
  | nil => rw [lexemes_nil, List.map_nil]
  | cons c cs ih =>
    obtain ⟨hc, hcs⟩ := List.forall_mem_cons.mp h
    obtain ⟨hs, hq⟩ := isInert_iff.mp hc
    rw [lexemes_cons, Lexeme.next_plain hs hq, ih hcs, List.map_cons]

/-- Whatever the text leaves open, the new line is read character for character. -/
theorem lexemes_append_plainLine (text : List Char) (h : ∀ d ∈ line, isInert d = true) :
    lexemes (text ++ '\n' :: line) = lexemes text ++ .plain '\n' :: line.map .plain := by
  have hl : lexemes text = lexemes text ++ [] := (List.append_nil _).symm
  have hbefore : lexemes ((lexemes text).flatMap Lexeme.text ++ '\n' :: line) =
      lexemes text ++ lexemes ('\n' :: line) := by
    refine lexemes_before hl ?_ fun _ _ _ => Or.inr rfl
    intro us d vs _ hd
    rw [List.flatMap_nil, List.append_nil] at hd
    exact next_append_plainLine hd h
  rwa [flatMap_text_lexemes, lexemes_lineFeed, lexemes_of_inert h] at hbefore

theorem mask_append_plainLine (text : List Char) (h : ∀ d ∈ line, isInert d = true) :
    mask (text ++ '\n' :: line) = mask text ++ '\n' :: line := by
  have hline : (line.map Lexeme.plain).flatMap Lexeme.masked = line := by
    rw [List.flatMap_map]
    exact List.flatMap_singleton' line
  rw [mask, lexemes_append_plainLine text h, List.flatMap_append, List.flatMap_cons, hline]
  rfl

end SnippetLint.Source
