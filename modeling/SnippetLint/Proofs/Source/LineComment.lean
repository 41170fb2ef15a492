import SnippetLint.Proofs.Source.Masking
import SnippetLint.Proofs.Text.Bytes

/-! The offsets of the `//` comments, and with them all that reading a source text says of its
one cut into tokens. -/
namespace SnippetLint.Source
open Text

theorem Token.Stands.start_lt_stop {code : List Char} {t : Token} (h : t.Stands code) :
    t.start < t.stop := by
  obtain ⟨word, rest, -, hl, hs⟩ := h
  have := hs.length_pos
  omega

theorem Tokenised.stands {code : List Char} {place : ℕ} {ts : List Token}
    (h : Tokenised code place ts) : ∀ t ∈ ts, place ≤ t.start ∧ t.Stands code := by
  induction h with
  | done _ => exact fun t ht => absurd ht List.not_mem_nil
  | token hp hs _ ih =>
    intro u hu
    rcases List.mem_cons.mp hu with rfl | hu
    · exact ⟨hp.ge, hs⟩
    · have := hs.start_lt_stop
      exact ⟨by have := (ih u hu).1; omega, (ih u hu).2⟩
  | plain _ _ _ ih =>
    intro u hu
    exact ⟨Nat.le_of_succ_le (ih u hu).1, (ih u hu).2⟩

/-- Tokens stand one after another. -/
theorem Tokenised.pairwise {code : List Char} {place : ℕ} {ts : List Token}
    (h : Tokenised code place ts) : ts.Pairwise fun s t => s.stop ≤ t.start := by
  induction h with
  | done _ => exact .nil
  | token _ _ hr ih => exact .cons (fun u hu => (hr.stands u hu).1) ih
  | plain _ _ _ ih => exact ih

theorem lineCommentsFrom_eq (before : List Char) (ls : List Lexeme) :
    lineCommentsFrom (byteLength before) ls =
      ((tokensFrom before.length ls).filter (·.kind = .lineComment)).map fun t =>
        byteLength ((before ++ ls.flatMap Lexeme.text).take t.start) := by
  induction ls generalizing before with
  | nil => rfl
  | cons l ls ih =>
    have hrest := ih (before ++ l.text)
    rw [byteLength_append, List.length_append, List.append_assoc] at hrest
    rw [List.flatMap_cons]
    unfold tokensFrom
    rw [List.filter_append, List.map_append, ← hrest]
    cases l with
    | plain c => rfl
    | blockComment t => rfl
    | literal t => rfl
    | lineComment t =>
      have hh : byteLength ((before ++ ((Lexeme.lineComment t).text ++
          ls.flatMap Lexeme.text)).take before.length) = byteLength before := by
        rw [List.take_left]
      simp only [Lexeme.token?, Lexeme.kind?, Option.map_some, Option.toList_some,
        List.filter_cons_of_pos, decide_true, List.filter_nil, List.map_cons, List.map_nil, hh]
      rfl

theorem lineComments_eq (code : List Char) :
    lineComments code = ((tokens code).filter (·.kind = .lineComment)).map fun t =>
      byteLength (code.take t.start) := by
  have h := lineCommentsFrom_eq [] (lexemes code)
  rw [flatMap_text_lexemes, List.nil_append] at h
  exact h

theorem pairwise_lineComments (code : List Char) : (lineComments code).Pairwise (· < ·) := by
  have ht := tokenised_tokens code
  rw [lineComments_eq, List.pairwise_map]
  refine (ht.pairwise.imp_of_mem ?_).sublist List.filter_sublist
  intro s t hs _ hst
  have hl := (ht.stands s hs).2
  have := hl.start_lt_stop
  exact byteLength_take_lt (by omega) hl.lt_length

/-- A source text is cut into tokens in one way. Masking keeps the length and makes spaces of
just those characters, line feeds apart, that a comment holds or a literal has inside; the
offsets listed are those of the `//` comments, in their order. -/
theorem mask_and_lineComments_of_tokenised (code : List Char) :
    ∃ ts, Tokenised code 0 ts ∧ (∀ us, Tokenised code 0 us → us = ts) ∧
      (mask code).length = code.length ∧
      mask code = code.mapIdx
        (fun i c => if c ≠ '\n' ∧ ∃ t ∈ ts, t.Blanks i then ' ' else c) ∧
      lineComments code = ((ts.filter (·.kind = .lineComment)).map fun t =>
        byteLength (code.take t.start)) ∧
      (lineComments code).Pairwise (· < ·) := by
  have ht := tokenised_tokens code
  refine ⟨tokens code, ht, fun us hu => ht.unique hu, ?_, mask_eq code, lineComments_eq code,
    pairwise_lineComments code⟩
  rw [mask_eq, List.length_mapIdx]

end SnippetLint.Source
