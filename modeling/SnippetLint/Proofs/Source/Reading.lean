import SnippetLint.Proofs.Source.Token

/-! What the readers of lexemes do with each form that a text can begin with. -/
namespace SnippetLint.Source
open Text

namespace Lexeme
variable {quote : Char}

theorem blockBody?_cons {c : Char} {cs : List Char}
    (h : ∀ rest, c = '*' → cs = '/' :: rest → False) :
    blockBody? (c :: cs) = (blockBody? cs).map fun r => (c :: r.1, r.2) :=
  blockBody?.eq_3 c cs h

/-- Nothing ends a block comment in a text if nothing ends it right there or further on. -/
theorem blockBody?_cons_eq_none_iff {c : Char} {cs : List Char} :
    blockBody? (c :: cs) = none ↔ ¬ (c = '*' ∧ cs.head? = some '/') ∧ blockBody? cs = none := by
  by_cases hend : c = '*' ∧ cs.head? = some '/'
  · obtain ⟨rfl, hs⟩ := hend
    obtain ⟨rest, rfl⟩ := List.head?_eq_some_iff.mp hs
    exact iff_of_false (by simp [blockBody?]) fun h => h.1 ⟨rfl, rfl⟩
  · have hgo : ∀ rest, c = '*' → cs = '/' :: rest → False := by
      rintro rest hc rfl
      exact hend ⟨hc, rfl⟩
    rw [blockBody?_cons hgo, Option.map_eq_none_iff]
    exact (and_iff_right hend).symm

theorem blockBody?_of_append {a b : List Char} (h : blockBody? (a ++ b) = none) :
    blockBody? b = none := by
  induction a with
  | nil => exact h
  | cons c a ih => exact ih (blockBody?_cons_eq_none_iff.mp h).2

theorem quotedBody?_quote (cs : List Char) :
    quotedBody? quote (quote :: cs) = some ([quote], cs) := by
  simp [quotedBody?.eq_def]

theorem quotedBody?_cons {c : Char} (hq : c ≠ quote) (hb : c ≠ '\\')
    (hn : c = '\n' → quote = '`') (cs : List Char) :
    quotedBody? quote (c :: cs) = (quotedBody? quote cs).map fun r => (c :: r.1, r.2) := by
  have hn : ¬ (c = '\n' && quote != '`') = true := by simpa using hn
  rw [quotedBody?.eq_def]
  dsimp only
  rw [if_neg hq, if_neg hn, if_neg hb]

theorem quotedBody?_lineFeed (hq : '\n' ≠ quote) (hk : quote ≠ '`') (cs : List Char) :
    quotedBody? quote ('\n' :: cs) = none := by
  have hn : (decide (('\n' : Char) = '\n') && quote != '`') = true := by simpa using hk
  rw [quotedBody?.eq_def]
  dsimp only
  rw [if_neg hq, if_pos hn]

theorem quotedBody?_escape (hq : quote ≠ '\\') {d : Char} (hn : d = '\n' → quote = '`')
    (cs : List Char) :
    quotedBody? quote ('\\' :: d :: cs) =
      (quotedBody? quote cs).map fun r => ('\\' :: d :: r.1, r.2) := by
  have hs : ¬ (('\\' : Char) = '\n' && quote != '`') = true := by simp
  have hn : ¬ (d = '\n' && quote != '`') = true := by simpa using hn
  rw [quotedBody?.eq_def]
  dsimp only
  rw [if_neg hq.symm, if_neg hs, if_pos rfl, if_neg hn]

theorem quotedBody?_escapedLineFeed (hq : quote ≠ '\\') (hk : quote ≠ '`') (cs : List Char) :
    quotedBody? quote ('\\' :: '\n' :: cs) = none := by
  have hs : ¬ (('\\' : Char) = '\n' && quote != '`') = true := by simp
  have hn : (decide (('\n' : Char) = '\n') && quote != '`') = true := by simpa using hk
  rw [quotedBody?.eq_def]
  dsimp only
  rw [if_neg hq.symm, if_neg hs, if_pos rfl, if_pos hn]

theorem quotedBody?_backslash (hq : quote ≠ '\\') : quotedBody? quote ['\\'] = none := by
  have hs : ¬ (('\\' : Char) = '\n' && quote != '`') = true := by simp
  rw [quotedBody?.eq_def]
  dsimp only
  rw [if_neg hq.symm, if_neg hs, if_pos rfl]

theorem next_lineComment {body rest : List Char} (hb : '\n' ∉ body)
    (hr : rest = [] ∨ rest.head? = some '\n') :
    next '/' ('/' :: (body ++ rest)) = (.lineComment ('/' :: '/' :: body), rest) := by
  have ht := takeWhile_of_lineEnd hb hr
  have hd : (body ++ rest).dropWhile (· != '\n') = rest := by
    have hs := List.takeWhile_append_dropWhile (p := (· != '\n')) (l := body ++ rest)
    rw [ht] at hs
    exact List.append_cancel_left hs
  unfold next
  rw [if_pos rfl]
  simp only [ht, hd]

theorem next_slash {d : Char} {ds : List Char} (hs : d ≠ '/')
    (hb : d = '*' → blockBody? ds = none) : next '/' (d :: ds) = (.plain '/', d :: ds) := by
  unfold next
  rw [if_pos rfl]
  split
  · rename_i h
    exact absurd (List.cons.inj h).1 hs
  · rename_i h
    obtain ⟨rfl, rfl⟩ := List.cons.inj h
    rw [hb rfl]
  · rfl

theorem next_plain {c : Char} (hs : c ≠ '/') (hq : isQuote c = false) (cs : List Char) :
    next c cs = (.plain c, cs) := by
  unfold next
  rw [if_neg hs, hq, if_neg Bool.false_ne_true]

end Lexeme

@[simp] theorem lexemes_nil : lexemes [] = [] := by rw [lexemes]

theorem lexemes_cons (c : Char) (cs : List Char) :
    lexemes (c :: cs) = (Lexeme.next c cs).1 :: lexemes (Lexeme.next c cs).2 := by
  rw [lexemes]

@[simp] theorem mask_nil : mask [] = [] := by rw [mask, lexemes_nil, List.flatMap_nil]

theorem mask_cons (c : Char) (cs : List Char) :
    mask (c :: cs) = (Lexeme.next c cs).1.masked ++ mask (Lexeme.next c cs).2 := by
  rw [mask, lexemes_cons, List.flatMap_cons, mask]

end SnippetLint.Source
