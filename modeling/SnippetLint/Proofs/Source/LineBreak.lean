import SnippetLint.Proofs.Source.Continuation
import SnippetLint.Proofs.Source.LineEnds

/-! A line feed cuts a text in two that are read each by itself, unless a block comment or a
template is open before it. A quote that nothing closes is no danger, nor is a backslash. -/
namespace SnippetLint.Source
open Text

variable {a b code : List Char} {ts : List Token}

/-- No token holds the character at `place`. -/
def Outside (ts : List Token) (place : ℕ) : Prop := ∀ t ∈ ts, ¬ (t.start ≤ place ∧ place < t.stop)

instance (ts : List Token) (place : ℕ) : Decidable (Outside ts place) :=
  inferInstanceAs (Decidable (∀ t ∈ ts, ¬ (t.start ≤ place ∧ place < t.stop)))

/-- No backtick and no `/*` of the code stays outside its tokens. -/
structure NothingOpen (code : List Char) (ts : List Token) : Prop where
  template : ∀ i, code[i]? = some '`' → ¬ Outside ts i
  comment : ∀ i, code[i]? = some '/' → code[i + 1]? = some '*' →
    ¬ (Outside ts i ∧ Outside ts (i + 1))

theorem outside_of_plain {c : Char} {ls ms : List Lexeme}
    (hl : lexemes code = ls ++ .plain c :: ms) :
    Outside (tokens code) (ls.flatMap Lexeme.text).length := by
  intro t ht
  rw [tokens, hl, tokensFrom_append, Nat.zero_add] at ht
  rcases List.mem_append.mp ht with ht | ht
  · have hstop := stop_of_mem_tokensFrom ht
    omega
  · have hstart : (ls.flatMap Lexeme.text).length + 1 ≤ t.start := start_of_mem_tokensFrom ht
    omega

theorem getElem?_of_plain {c : Char} {ls ms : List Lexeme}
    (hl : lexemes code = ls ++ .plain c :: ms) :
    code[(ls.flatMap Lexeme.text).length]? = some c := by
  have htext := flatMap_text_lexemes code
  rw [hl, List.flatMap_append, List.flatMap_cons] at htext
  rw [← htext, List.getElem?_append_right (Nat.le_refl _), Nat.sub_self]
  rfl

/-- A star outside every token, right after a plain character. -/
theorem exists_eq_plain_star {ls ms : List Lexeme} {l : Lexeme}
    (hl : lexemes code = ls ++ l :: ms) {t : List Char}
    (ht : (l :: ms).flatMap Lexeme.text = '*' :: t) : l = .plain '*' := by
  have hmem : l ∈ lexemes code := by simp [hl]
  obtain ⟨c, cs, rest, hs⟩ := exists_starts_of_mem_lexemes hmem
  obtain ⟨u, hu⟩ := hs.exists_text
  rw [List.flatMap_cons, hu] at ht
  obtain rfl : c = '*' := (List.cons.inj ht).1
  cases hs with
  | plain => rfl
  | lineComment hc => exact absurd hc (by decide)
  | blockComment hc => exact absurd hc (by decide)
  | literal hq => exact absurd hq (by decide)

/-- Neither a backtick nor a `/*` is left plain. -/
theorem NothingOpen.plain (h : NothingOpen code (tokens code)) {c : Char} {ls ms : List Lexeme}
    (hl : lexemes code = ls ++ .plain c :: ms) :
    c ≠ '`' ∧ (c = '/' → (ms.flatMap Lexeme.text).head? ≠ some '*') := by
  have hc := getElem?_of_plain hl
  constructor
  · rintro rfl
    exact h.template _ hc (outside_of_plain hl)
  · rintro rfl hstar
    obtain ⟨t, ht⟩ := List.head?_eq_some_iff.mp hstar
    cases ms with
    | nil => exact absurd ht.symm (List.cons_ne_nil _ _)
    | cons m ms =>
      rw [List.append_cons] at hl
      obtain rfl := exists_eq_plain_star hl ht
      have hlength : ((ls ++ [Lexeme.plain '/']).flatMap Lexeme.text).length =
          (ls.flatMap Lexeme.text).length + 1 := by
        rw [List.flatMap_append, List.length_append]
        rfl
      have hnext := getElem?_of_plain hl
      have hout := outside_of_plain hl
      rw [hlength] at hnext hout
      rw [← List.append_cons] at hl
      exact h.comment _ hc hnext ⟨outside_of_plain hl, hout⟩

/-- Only a template's literal goes on over a line feed, be it escaped or not. -/
theorem keepsOpen_lineFeed {quote : Char} (hq : Lexeme.isQuote quote = true) (hk : quote ≠ '`')
    (b : List Char) : KeepsOpen quote ('\n' :: b) [] where
  fresh _ := (unclosed_cons (Lexeme.ne_of_isQuote hq rfl).symm (by decide) b).mpr (Or.inl ⟨rfl, hk⟩)
  escaped _ :=
    (unclosed_escape (Lexeme.ne_backslash_of_isQuote hq) '\n' b).mpr (Or.inl ⟨rfl, hk⟩)

theorem next_append_lineFeed {c : Char} {text : List Char} (hk : c ≠ '`')
    (hs : c = '/' → text.head? ≠ some '*') (h : (Lexeme.next c text).1 = .plain c) :
    (Lexeme.next c (text ++ '\n' :: b)).1 = .plain c := by
  refine Lexeme.next_of_plain_before h ?_ ?_ fun hq hu => ?_
  · cases text with
    | nil => exact fun _ hn => absurd (Option.some.inj hn) (by decide)
    | cons d text => exact id
  · intro hc es hes
    cases text with
    | nil => exact absurd (List.cons.inj hes).1 (by decide)
    | cons d text => exact absurd (congrArg some (List.cons.inj hes).1) (hs hc)
  · rw [← List.append_nil text] at hu
    have hb := Lexeme.ne_backslash_of_isQuote hq
    exact ((keepsOpen_lineFeed hq hk b).append_left hb text).fresh hu

theorem lexemes_append_lineFeed (h : NothingOpen a (tokens a)) (b : List Char) :
    lexemes (a ++ '\n' :: b) = lexemes a ++ .plain '\n' :: lexemes b := by
  have hl : lexemes a = lexemes a ++ [] := (List.append_nil _).symm
  have hbefore : lexemes ((lexemes a).flatMap Lexeme.text ++ '\n' :: b) =
      lexemes a ++ lexemes ('\n' :: b) := by
    refine lexemes_before hl ?_ fun _ _ _ => Or.inr rfl
    intro us d vs hus hd
    rw [List.flatMap_nil, List.append_nil] at hd
    obtain ⟨hk, hs⟩ := h.plain hus
    exact next_append_lineFeed hk hs hd
  rwa [flatMap_text_lexemes, lexemes_lineFeed] at hbefore

theorem lineCommentsFrom_append (offset : ℕ) (ls ms : List Lexeme) :
    lineCommentsFrom offset (ls ++ ms) = lineCommentsFrom offset ls ++
      lineCommentsFrom (offset + byteLength (ls.flatMap Lexeme.text)) ms := by
  induction ls generalizing offset with
  | nil => rfl
  | cons l ls ih =>
    rw [List.flatMap_cons, byteLength_append, ← Nat.add_assoc]
    cases l with
    | lineComment t => exact congrArg (offset :: ·) (ih _)
    | plain c => exact ih _
    | blockComment t => exact ih _
    | literal t => exact ih _

theorem lineCommentsFrom_add (offset shift : ℕ) (ls : List Lexeme) :
    lineCommentsFrom (offset + shift) ls = (lineCommentsFrom offset ls).map (· + shift) := by
  induction ls generalizing offset with
  | nil => rfl
  | cons l ls ih =>
    have hrest (n : ℕ) : lineCommentsFrom (offset + shift + n) ls =
        (lineCommentsFrom (offset + n) ls).map (· + shift) := by
      rw [Nat.add_right_comm, ih]
    cases l with
    | lineComment t => exact congrArg ((offset + shift) :: ·) (hrest _)
    | plain c => exact hrest _
    | blockComment t => exact hrest _
    | literal t => exact hrest _

/-- Where no block comment and no template is open at the line feed, masking goes on after it as
in a text of its own, and so does the search for `//` comments. -/
theorem mask_and_lineComments_of_lines (ht : Tokenised a 0 ts) (h : NothingOpen a ts)
    (b : List Char) :
    mask (a ++ '\n' :: b) = mask a ++ '\n' :: mask b ∧
      lineComments (a ++ '\n' :: b) =
        lineComments a ++ (lineComments b).map (· + (byteLength a + 1)) := by
  obtain rfl := ht.unique (tokenised_tokens a)
  have hl := lexemes_append_lineFeed h b
  constructor
  · rw [mask, hl, List.flatMap_append, List.flatMap_cons]
    rfl
  · have hafter : lineCommentsFrom (0 + byteLength a) (.plain '\n' :: lexemes b) =
        (lineComments b).map (· + (byteLength a + 1)) := by
      rw [Nat.zero_add, lineComments, ← lineCommentsFrom_add, Nat.zero_add]
      rfl
    rw [lineComments, hl, lineCommentsFrom_append, flatMap_text_lexemes]
    exact congrArg (lineComments a ++ ·) hafter

namespace Sample

/-- A literal with openers in it, a quote that nothing closes, and a backslash at the end. -/
def halfLine : List Char := "a = '`/*' + \"it\\".toList

theorem tokens_halfLine : tokens halfLine = [⟨.literal, 4, 9⟩] := by decide +kernel

theorem nothingOpen_halfLine : NothingOpen halfLine [⟨.literal, 4, 9⟩] where
  template i hi := by
    have hall : ∀ i < halfLine.length, halfLine[i]? = some '`' →
        ¬ Outside [⟨.literal, 4, 9⟩] i := by decide
    exact hall i (List.getElem?_eq_some_iff.mp hi).1 hi
  comment i hi hnext := by
    have hall : ∀ i < halfLine.length, halfLine[i]? = some '/' →
        ¬ (Outside [⟨.literal, 4, 9⟩] i ∧ Outside [⟨.literal, 4, 9⟩] (i + 1)) := by decide
    exact hall i (List.getElem?_eq_some_iff.mp hi).1 hi

theorem mask_and_lineComments_halfLine :
    Tokenised halfLine 0 [⟨.literal, 4, 9⟩] ∧ NothingOpen halfLine [⟨.literal, 4, 9⟩] ∧
      mask (halfLine ++ '\n' :: "\"; // c".toList) =
        "a = '   ' + \"it\\\n\";     ".toList ∧
      lineComments (halfLine ++ '\n' :: "\"; // c".toList) = [20] := by
  have ht : Tokenised halfLine 0 [⟨.literal, 4, 9⟩] := tokens_halfLine ▸ tokenised_tokens halfLine
  obtain ⟨hmask, hcomments⟩ :=
    mask_and_lineComments_of_lines ht nothingOpen_halfLine "\"; // c".toList
  refine ⟨ht, nothingOpen_halfLine, hmask.trans ?_, hcomments.trans ?_⟩
  · decide +kernel
  · decide +kernel

end Sample
end SnippetLint.Source
