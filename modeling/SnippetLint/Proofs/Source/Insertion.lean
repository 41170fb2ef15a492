import SnippetLint.Proofs.Source.Continuation
import SnippetLint.Proofs.Source.LineComment
import SnippetLint.Proofs.Text.Offsets

/-! A semicolon put into a source text after the last character of a masked line that is no blank.
It comes between two lexemes, and then it changes none of them; or it comes inside a literal that
goes on in the next line, right after the quote that opens it, and is swallowed there. -/
namespace SnippetLint.Source
open Text

variable {quote c : Char} {rest cs a b : List Char}

theorem keepsOpen_semicolon (hq : Lexeme.isQuote quote = true)
    (hrest : ∀ d ∈ rest.head?, d ≠ '\\' ∧ Lexeme.isQuote d = false) :
    KeepsOpen quote (';' :: rest) rest := by
  have hb := Lexeme.ne_backslash_of_isQuote hq
  have hsemicolon : ';' ≠ quote := (Lexeme.ne_of_isQuote hq rfl).symm
  refine ⟨fun hu => (unclosed_cons hsemicolon (by decide) rest).mpr (Or.inr hu), fun hu => ?_⟩
  refine (unclosed_escape hb ';' rest).mpr (Or.inr ?_)
  cases rest with
  | nil => exact unclosed_nil
  | cons d rest =>
    obtain ⟨hdb, hdq⟩ := hrest d rfl
    have hd : d ≠ quote := (Lexeme.ne_of_isQuote hq hdq).symm
    exact (unclosed_cons hd hdb rest).mpr ((unclosed_escape hb d rest).mp hu)

/-- A backslash loses its effect on what comes after the semicolon, so there must be nothing for it
to have an effect on. -/
theorem Unclosed.insert (hq : Lexeme.isQuote quote = true) {before : List Char}
    (hl : before.getLast? = some '\\' →
      ∀ d ∈ rest.head?, d ≠ '\\' ∧ Lexeme.isQuote d = false)
    (h : Unclosed quote (before ++ rest)) : Unclosed quote (before ++ ';' :: rest) := by
  have hb := Lexeme.ne_backslash_of_isQuote hq
  have hsemicolon : ';' ≠ quote := (Lexeme.ne_of_isQuote hq rfl).symm
  rcases List.eq_nil_or_concat before with rfl | ⟨before, x, rfl⟩
  · exact (unclosed_cons hsemicolon (by decide) rest).mpr (Or.inr h)
  rw [List.concat_eq_append] at hl h ⊢
  by_cases hx : x = '\\'
  · subst hx
    have hrest := hl List.getLast?_concat
    exact ((keepsOpen_semicolon hq hrest).append_left hb _).fresh h
  -- After any other character the search is at the semicolon as it was at what follows it.
  · have hgo (hu : Unclosed quote rest) : Unclosed quote (';' :: rest) :=
      (unclosed_cons hsemicolon (by decide) rest).mpr (Or.inr hu)
    have hkeeps : KeepsOpen quote (x :: ';' :: rest) (x :: rest) := by
      refine ⟨fun hu => ?_, fun hu => ?_⟩
      · have hxq : x ≠ quote := fun hxq => not_unclosed_quote _ (hxq ▸ hu)
        exact (unclosed_cons hxq hx _).mpr (((unclosed_cons hxq hx _).mp hu).imp_right hgo)
      · exact (unclosed_escape hb x _).mpr (((unclosed_escape hb x _).mp hu).imp_right hgo)
    rw [List.append_assoc, List.singleton_append] at h ⊢
    exact (hkeeps.append_left hb before).fresh h

theorem blockBody?_insert (before : List Char)
    (h : Lexeme.blockBody? (before ++ rest) = none) :
    Lexeme.blockBody? (before ++ ';' :: rest) = none := by
  induction before with
  | nil =>
    have hstar : ¬ (';' = '*' ∧ rest.head? = some '/') := fun h => absurd h.1 (by decide)
    exact Lexeme.blockBody?_cons_eq_none_iff.mpr ⟨hstar, h⟩
  | cons d before ih =>
    obtain ⟨hend, hrest⟩ := Lexeme.blockBody?_cons_eq_none_iff.mp h
    refine Lexeme.blockBody?_cons_eq_none_iff.mpr ⟨fun hd => ?_, ih hrest⟩
    cases before with
    | nil => exact absurd (Option.some.inj hd.2) (by decide)
    | cons e before => exact hend hd

theorem next_insert_of_plain (h : (Lexeme.next c (a ++ b)).1 = .plain c)
    (ha : (c :: a).getLast? = some '\\' →
      ∀ d ∈ b.head?, d ≠ '\\' ∧ Lexeme.isQuote d = false) :
    (Lexeme.next c (a ++ ';' :: b)).1 = .plain c := by
  refine Lexeme.next_of_plain_before h ?_ ?_ fun hq hu => hu.insert hq fun hlast => ha ?_
  · cases a with
    | nil => exact fun _ hs => absurd (Option.some.inj hs) (by decide)
    | cons d a => exact id
  · intro _ es hes
    cases a with
    | nil => exact absurd (List.cons.inj hes).1 (by decide)
    | cons d a =>
      obtain ⟨rfl, rfl⟩ := List.cons.inj hes
      exact ⟨a ++ b, rfl, blockBody?_insert a⟩
  · rw [List.getLast?_cons, hlast]
    rfl

/-- The lexemes stay, and the semicolon comes between those before it and those after it. -/
theorem lexemes_insert {ls ms : List Lexeme} {code : List Char} (hl : lexemes code = ls ++ ms)
    (hend : ∀ t, ls.getLast? ≠ some (.lineComment t))
    (hesc : (ls.flatMap Lexeme.text).getLast? = some '\\' →
      ∀ d ∈ (ms.flatMap Lexeme.text).head?, d ≠ '\\' ∧ Lexeme.isQuote d = false) :
    lexemes (ls.flatMap Lexeme.text ++ ';' :: ms.flatMap Lexeme.text) =
      ls ++ .plain ';' :: ms := by
  have hsemicolon : lexemes (';' :: ms.flatMap Lexeme.text) = .plain ';' :: ms := by
    rw [lexemes_cons, show Lexeme.next ';' _ = (.plain ';', _) from rfl, lexemes_after hl]
  rw [lexemes_before hl ?_ fun t ht => absurd ht (hend t), hsemicolon]
  rintro us d vs rfl hd
  refine next_insert_of_plain hd fun hlast => hesc ?_
  rw [List.flatMap_append, List.flatMap_cons]
  exact (List.getLast?_append_of_ne_nil _ (List.cons_ne_nil d _)).trans hlast

theorem isBlank_blankOut (d : Char) : isBlank (blankOut d) = true := by
  rcases blankOut_eq d with h | h <;> rw [h] <;> rfl

theorem isBlank_of_isQuote (h : Lexeme.isQuote quote = true) : isBlank quote = false := by
  have hq := (Lexeme.isQuote_iff quote).mp h
  simp only [List.mem_cons, List.not_mem_nil, or_false] at hq
  rcases hq with rfl | rfl | rfl <;> rfl

/-- What is masked by a blank where a lexeme begins is itself a blank or begins a comment. -/
theorem Starts.of_masked_blank {l : Lexeme} (hs : Starts c cs l rest)
    (h : ∀ m ∈ l.masked.head?, isBlank m = true) : c ≠ '\\' ∧ Lexeme.isQuote c = false := by
  cases hs with
  | plain =>
    have hc : isBlank c = true := h c rfl
    refine ⟨?_, ?_⟩
    · rintro rfl
      exact absurd hc (by decide)
    · rw [← Bool.not_eq_true]
      intro hq
      rw [isBlank_of_isQuote hq] at hc
      exact absurd hc (by decide)
  | lineComment hc | blockComment hc =>
    subst hc
    decide
  | literal hq =>
    have hc : isBlank c = true := h c rfl
    rw [isBlank_of_isQuote hq] at hc
    exact absurd hc (by decide)

/-- Only a literal goes on after one of its masked characters that is no blank, its first quote. -/
theorem Starts.exists_literal {l : Lexeme} (hs : Starts c cs l rest) {u v : List Char}
    (hm : l.masked = u ++ v) {x : Char} (hu : u.getLast? = some x) (hx : isBlank x = false)
    (hv : v ≠ []) :
    ∃ body, Lexeme.isQuote c = true ∧ QuotedBody c body ∧ l = .literal (c :: (body ++ [c])) ∧
      u = [c] ∧ v = body.map blankOut ++ [c] := by
  have hmem : x ∈ u := List.mem_of_getLast? hu
  have hblank (t : List Char) (h : t.map blankOut = u ++ v) : False := by
    have hx' : x ∈ t.map blankOut := by
      rw [h]
      exact List.mem_append_left _ hmem
    obtain ⟨d, -, rfl⟩ := List.mem_map.mp hx'
    rw [isBlank_blankOut] at hx
    exact absurd hx (by decide)
  cases hs with
  | plain =>
    have hl := congrArg List.length hm
    have hp := List.length_pos_of_mem hmem
    have hq := List.length_pos_iff.mpr hv
    rw [List.length_append] at hl
    simp only [Lexeme.masked, List.length_singleton] at hl
    omega
  | lineComment => exact (hblank _ hm).elim
  | blockComment => exact (hblank _ hm).elim
  | @literal body _ hc _ hbody =>
    have hmasked : c :: (body.map blankOut ++ [c]) = u ++ v := (masked_literal c body).symm.trans hm
    obtain ⟨d, ds, rfl⟩ := List.exists_cons_of_ne_nil (List.ne_nil_of_mem hmem)
    rw [List.cons_append] at hmasked
    obtain ⟨rfl, htail⟩ := List.cons.inj hmasked
    rcases List.eq_nil_or_concat ds with rfl | ⟨ds, y, rfl⟩
    · exact ⟨body, hc, hbody, rfl, rfl, htail.symm⟩
    -- A second character before the cut would be inside the literal, where all is blank.
    · have hy : y = x := by
        rw [List.concat_eq_append, ← List.cons_append, List.getLast?_concat] at hu
        exact Option.some.inj hu
      have hinside : (ds ++ [y]) ++ v.dropLast = body.map blankOut := by
        rw [← List.concat_eq_append, ← List.dropLast_append_of_ne_nil hv, ← htail,
          List.dropLast_concat]
      have hmem : y ∈ body.map blankOut := by
        rw [← hinside]
        simp
      obtain ⟨e, -, he⟩ := List.mem_map.mp hmem
      rw [← hy, ← he, isBlank_blankOut] at hx
      exact absurd hx (by decide)

/-- A place in a masked text and the lexemes there. -/
inductive Cut (code : List Char) : List Char → List Char → Prop where
  | between {ls ms : List Lexeme} : lexemes code = ls ++ ms →
      Cut code (ls.flatMap Lexeme.masked) (ms.flatMap Lexeme.masked)
  /-- Right after the quote that opens a literal of more than one line. -/
  | inside {ls ms : List Lexeme} {quote : Char} {body : List Char} :
      lexemes code = ls ++ .literal (quote :: (body ++ [quote])) :: ms →
      Lexeme.isQuote quote = true → QuotedBody quote body → '\n' ∈ body →
      Cut code (ls.flatMap Lexeme.masked ++ [quote])
        (body.map blankOut ++ quote :: ms.flatMap Lexeme.masked)

/-- After the last character of a masked line that is no blank. -/
theorem cut_of_mask {code A B : List Char} (hm : mask code = A ++ B) {x : Char}
    (hx : A.getLast? = some x) (hblank : isBlank x = false)
    (hrest : ∀ d ∈ B.takeWhile (· != '\n'), isBlank d = true) : Cut code A B := by
  have hflat : ((lexemes code).map Lexeme.masked).flatten = A ++ B := by
    rw [← List.flatMap_def]
    exact hm
  rcases List.flatten_eq_append_iff.mp hflat with ⟨as, bs, hsplit, rfl, rfl⟩ |
    ⟨as, bs, d, ds, es, hsplit, rfl, rfl⟩
  · obtain ⟨ls, ms, hl, rfl, rfl⟩ := List.map_eq_append_iff.mp hsplit
    rw [← List.flatMap_def, ← List.flatMap_def]
    exact .between hl
  obtain ⟨ls, ms, hl, rfl, hms⟩ := List.map_eq_append_iff.mp hsplit
  obtain ⟨l, ms, rfl, hmasked, rfl⟩ := List.map_eq_cons_iff.mp hms
  rcases List.eq_nil_or_concat bs with rfl | ⟨bs, y, rfl⟩
  · have hcut := Cut.between hl
    rw [List.flatMap_cons, hmasked] at hcut
    rwa [List.append_nil, ← List.flatMap_def, ← List.flatMap_def]
  have hu : (bs.concat y).getLast? = some x := by
    rw [List.concat_eq_append, ← List.append_assoc, List.getLast?_concat] at hx
    rw [List.concat_eq_append, List.getLast?_concat, hx]
  have hmem : l ∈ lexemes code := by simp [hl]
  obtain ⟨c, cs, rest, hs⟩ := exists_starts_of_mem_lexemes hmem
  obtain ⟨body, hq, hbody, rfl, hopen, hclose⟩ :=
    hs.exists_literal hmasked hu hblank (List.cons_ne_nil d ds)
  rw [← List.flatMap_def, ← List.flatMap_def, hopen, hclose, List.append_assoc]
  refine .inside hl hq hbody ?_
  by_contra hn
  -- the closing quote would be on the line
  have hline : ∀ e ∈ body.map blankOut, (e != '\n') = true := by
    intro e he
    obtain ⟨f, hf, rfl⟩ := List.mem_map.mp he
    rw [bne_iff_ne, ne_eq, blankOut_eq_newline_iff]
    rintro rfl
    exact hn hf
  have hquote : (c != '\n') = true := by
    rw [bne_iff_ne]
    exact Lexeme.ne_of_isQuote hq rfl
  have hsolid := hrest c (by
    rw [hclose, List.append_assoc, List.takeWhile_append_of_pos hline,
      List.singleton_append, List.takeWhile_cons, if_pos hquote]
    simp)
  rw [isBlank_of_isQuote hq] at hsolid
  exact absurd hsolid (by decide)

/-- A semicolon between two lexemes, after a character that masking shows. -/
theorem mask_insert_between {code : List Char} {ls ms : List Lexeme}
    (hl : lexemes code = ls ++ ms) {x : Char}
    (hx : (ls.flatMap Lexeme.masked).getLast? = some x) (hblank : isBlank x = false)
    (hnext : ∀ d ∈ (ms.flatMap Lexeme.masked).head?, isBlank d = true) :
    mask (ls.flatMap Lexeme.text ++ ';' :: ms.flatMap Lexeme.text) =
      ls.flatMap Lexeme.masked ++ ';' :: ms.flatMap Lexeme.masked := by
  have hend : ∀ t, ls.getLast? ≠ some (.lineComment t) := by
    intro t ht
    obtain ⟨as, rfl⟩ := List.getLast?_eq_some_iff.mp ht
    have hmem : .lineComment t ∈ lexemes code := by simp [hl]
    obtain ⟨c, cs, rest, hs⟩ := exists_starts_of_mem_lexemes hmem
    obtain ⟨u, hu⟩ := hs.exists_text
    obtain rfl : t = c :: u := hu
    rw [List.flatMap_append, List.flatMap_singleton, List.getLast?_append_of_ne_nil] at hx
    · obtain ⟨d, -, hd⟩ := List.mem_map.mp (List.mem_of_getLast? hx)
      rw [← hd, isBlank_blankOut] at hblank
      exact absurd hblank (by decide)
    · exact List.cons_ne_nil _ _
  have hesc : ∀ d ∈ (ms.flatMap Lexeme.text).head?, d ≠ '\\' ∧ Lexeme.isQuote d = false := by
    intro d hd
    cases ms with
    | nil => exact absurd hd (Option.not_mem_none d)
    | cons m ms =>
      have hmem : m ∈ lexemes code := by simp [hl]
      obtain ⟨c, cs, rest, hs⟩ := exists_starts_of_mem_lexemes hmem
      obtain ⟨t, ht⟩ := hs.exists_text
      obtain ⟨e, -, he⟩ := hs.masked
      rw [List.flatMap_cons, ht] at hd
      rw [List.flatMap_cons, he] at hnext
      obtain rfl : c = d := Option.some.inj hd
      refine hs.of_masked_blank ?_
      rw [he]
      exact hnext
  rw [mask, lexemes_insert hl hend fun _ => hesc, List.flatMap_append, List.flatMap_cons]
  rfl

theorem eq_append_of_literal {code body : List Char} {ls ms : List Lexeme}
    (hl : lexemes code = ls ++ .literal (quote :: (body ++ [quote])) :: ms) :
    code = ls.flatMap Lexeme.text ++ [quote] ++ (body ++ quote :: ms.flatMap Lexeme.text) := by
  have h := flatMap_text_lexemes code
  rw [hl] at h
  rw [← h]
  simp [Lexeme.text]

/-- A semicolon right after the quote that opens a literal is blanked like the rest inside it. -/
theorem mask_insert_inside {code body : List Char} {ls ms : List Lexeme}
    (hl : lexemes code = ls ++ .literal (quote :: (body ++ [quote])) :: ms)
    (hq : Lexeme.isQuote quote = true) (hbody : QuotedBody quote body) :
    mask (ls.flatMap Lexeme.text ++ [quote] ++ ';' :: (body ++ quote :: ms.flatMap Lexeme.text)) =
      ls.flatMap Lexeme.masked ++ [quote] ++
        ' ' :: (body.map blankOut ++ quote :: ms.flatMap Lexeme.masked) := by
  have hsemicolon : ';' ≠ quote := (Lexeme.ne_of_isQuote hq rfl).symm
  have hbody' : QuotedBody quote (';' :: body) :=
    (quotedBody_cons (by decide) body).mpr ⟨hsemicolon, fun _ => by decide, hbody⟩
  have hafter : lexemes (quote :: ';' :: (body ++ quote :: ms.flatMap Lexeme.text)) =
      .literal (quote :: ';' :: (body ++ [quote])) :: ms := by
    have hms : lexemes (ms.flatMap Lexeme.text) = ms := by
      rw [List.append_cons] at hl
      exact lexemes_after hl
    have h := lexemes_literal hq hbody' (ms.flatMap Lexeme.text)
    rw [hms] at h
    simpa using h
  have hbefore : lexemes (ls.flatMap Lexeme.text ++
      quote :: ';' :: (body ++ quote :: ms.flatMap Lexeme.text)) =
        ls ++ .literal (quote :: ';' :: (body ++ [quote])) :: ms := by
    rw [lexemes_before hl ?_ ?_, hafter]
    · intro us d vs _ hd
      have hlast : (d :: (vs.flatMap Lexeme.text ++ [quote])).getLast? ≠ some '\\' := by
        rw [← List.cons_append, List.getLast?_concat]
        exact fun h => Lexeme.ne_backslash_of_isQuote hq (Option.some.inj h)
      have h := next_insert_of_plain (a := vs.flatMap Lexeme.text ++ [quote])
        (b := body ++ quote :: ms.flatMap Lexeme.text) (by simpa [Lexeme.text] using hd)
        fun h => absurd h hlast
      simpa using h
    · rintro t - (hnil | hnewline)
      · exact absurd hnil (by simp [Lexeme.text])
      · exact Or.inr (by simpa [Lexeme.text] using hnewline)
  have hmasked := masked_literal quote (';' :: body)
  rw [List.append_assoc, List.singleton_append, mask, hbefore, List.flatMap_append,
    List.flatMap_cons, ← List.cons_append, hmasked]
  simp [blankOut]

/-- The position is inside a literal that goes on over the end of the line. -/
def InOpenLiteral (code : List Char) (p : Position) : Prop :=
  ∃ before rest ts, code = before ++ rest ∧ Position.after before = p ∧ Tokenised code 0 ts ∧
    ∃ t ∈ ts, t.kind = .literal ∧ t.start < before.length ∧ before.length < t.stop ∧
      '\n' ∈ rest.take (t.stop - before.length)

theorem not_inOpenLiteral_of_between {code : List Char} {ls ms : List Lexeme}
    (hl : lexemes code = ls ++ ms) :
    ¬ InOpenLiteral code (.after (ls.flatMap Lexeme.text)) := by
  rintro ⟨before, rest, ts, rfl, hp, hts, t, ht, -, hstart, hstop, -⟩
  have htext : before ++ rest = ls.flatMap Lexeme.text ++ ms.flatMap Lexeme.text := by
    rw [← List.flatMap_append, ← hl, flatMap_text_lexemes]
  obtain rfl : before = ls.flatMap Lexeme.text := Position.after_inj htext hp
  rw [← hts.unique (tokenised_tokens _)] at ht
  have hapart := apart_of_mem_tokens hl ht
  omega

theorem inOpenLiteral_of_inside {code body : List Char} {ls ms : List Lexeme}
    (hl : lexemes code = ls ++ .literal (quote :: (body ++ [quote])) :: ms) (hn : '\n' ∈ body) :
    InOpenLiteral code (.after (ls.flatMap Lexeme.text ++ [quote])) := by
  have htext := eq_append_of_literal hl
  set n := (ls.flatMap Lexeme.text).length
  have ht : ⟨.literal, n, n + (body.length + 2)⟩ ∈ tokens code := by
    rw [tokens, hl, tokensFrom_append, Nat.zero_add]
    refine List.mem_append_right _ (List.mem_append_left _ ?_)
    simp [Lexeme.token?, Lexeme.kind?, Lexeme.text, n]
  refine ⟨_, _, _, htext, rfl, tokenised_tokens code, _, ht, rfl, ?_, ?_, ?_⟩
  · simp [n]
  · simp [n]
  · have hlength : n + (body.length + 2) - (ls.flatMap Lexeme.text ++ [quote]).length =
        body.length + 1 := by
      rw [List.length_append, List.length_singleton]
      omega
    dsimp only
    rw [hlength, List.take_length_add_append]
    exact List.mem_append_left _ hn

theorem after_flatMap_masked (ls : List Lexeme) :
    Position.after (ls.flatMap Lexeme.masked) = Position.after (ls.flatMap Lexeme.text) := by
  rw [flatMap_masked ls 0]
  exact Position.after_congr (length_lines_mapIdx (fun i => shown_eq_newline_iff _ (0 + i)) _)

section
variable {code A B : List Char} (hm : mask code = A ++ B) {x : Char} (hx : A.getLast? = some x)
  (hblank : isBlank x = false) (hrest : ∀ d ∈ B.takeWhile (· != '\n'), isBlank d = true)
include hm hx hblank hrest

/-- A semicolon after the last character of a masked line that is no blank. -/
theorem mask_insertAt_of_not_inOpenLiteral (hp : ¬ InOpenLiteral code (.after A)) :
    mask (insertAt ';' code (.after A)) = A ++ ';' :: B := by
  cases cut_of_mask hm hx hblank hrest with
  | @between ls ms hl =>
    have hnext : ∀ d ∈ (ms.flatMap Lexeme.masked).head?, isBlank d = true := by
      intro d hd
      obtain ⟨ds, hds⟩ := List.head?_eq_some_iff.mp hd
      by_cases hn : d = '\n'
      · subst hn
        rfl
      · apply hrest
        rw [hds, List.takeWhile_cons, if_pos (bne_iff_ne.mpr hn)]
        exact List.mem_cons_self
    have htext : code = ls.flatMap Lexeme.text ++ ms.flatMap Lexeme.text := by
      rw [← List.flatMap_append, ← hl, flatMap_text_lexemes]
    have hinsert := insertAt_after (c := ';') (by decide) (ls.flatMap Lexeme.text)
      (ms.flatMap Lexeme.text)
    rw [← htext] at hinsert
    rw [after_flatMap_masked, hinsert, mask_insert_between hl hx hblank hnext]
  | @inside ls ms quote body hl hq hbody hn =>
    have hopen := inOpenLiteral_of_inside hl hn
    rw [Position.after_append_singleton, ← after_flatMap_masked,
      ← Position.after_append_singleton] at hopen
    exact absurd hopen hp

/-- A semicolon inside a literal that goes on in the next line. -/
theorem mask_insertAt_of_inOpenLiteral (hp : InOpenLiteral code (.after A)) :
    mask (insertAt ';' code (.after A)) = A ++ ' ' :: B := by
  cases cut_of_mask hm hx hblank hrest with
  | @between ls ms hl =>
    rw [after_flatMap_masked] at hp
    exact absurd hp (not_inOpenLiteral_of_between hl)
  | @inside ls ms quote body hl hq hbody hn =>
    have htext := eq_append_of_literal hl
    have hinsert := insertAt_after (c := ';') (by decide) (ls.flatMap Lexeme.text ++ [quote])
      (body ++ quote :: ms.flatMap Lexeme.text)
    rw [← htext] at hinsert
    rw [Position.after_append_singleton, after_flatMap_masked, ← Position.after_append_singleton,
      hinsert, mask_insert_inside hl hq hbody]

end

/-- Without backticks every literal ends on its line. -/
theorem not_inOpenLiteral {code : List Char} (hk : '`' ∉ code) (p : Position) :
    ¬ InOpenLiteral code p := by
  rintro ⟨before, rest, ts, hcode, -, hts, t, ht, hkind, hstart, hstop, hn⟩
  obtain ⟨word, after, hdrop, hlength, hspells⟩ := (hts.stands t ht).2
  rw [hkind] at hspells
  obtain ⟨quote, hq, body, rfl, hbody⟩ := hspells
  have hquote : quote ∈ code := by
    apply List.mem_of_mem_drop (i := t.start)
    rw [hdrop]
    simp
  have hbacktick : quote ≠ '`' := by
    rintro rfl
    exact hk hquote
  have hnewline : quote ≠ '\n' := Lexeme.ne_of_isQuote ((Lexeme.isQuote_iff quote).mpr hq) rfl
  have hword : '\n' ∉ quote :: (body ++ [quote]) := by
    simp [hbody.oneLine hbacktick, hnewline.symm]
  have hrest : rest = (code.drop t.start).drop (before.length - t.start) := by
    rw [List.drop_drop, Nat.add_sub_cancel' hstart.le, hcode, List.drop_left]
  rw [hrest, hdrop, List.drop_append_of_le_length (by omega), List.take_append_of_le_length] at hn
  · exact hword (List.mem_of_mem_drop (List.mem_of_mem_take hn))
  · rw [List.length_drop]
    omega

end SnippetLint.Source
