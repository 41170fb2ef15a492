import Mathlib.Data.List.TakeWhile
import SnippetLint.Proofs.Source.Tokenisation

/-! The lexemes of a text are its tokens and the plain characters between them. -/
namespace SnippetLint.Source
open Text

namespace Lexeme

def kind? : Lexeme → Option TokenKind
  | plain _ => none
  | lineComment _ => some .lineComment
  | blockComment _ => some .blockComment
  | literal _ => some .literal

theorem isQuote_iff (c : Char) : isQuote c ↔ c ∈ ['"', '\'', '`'] := by
  simp [isQuote, or_assoc]

theorem ne_of_isQuote {c d : Char} (hc : isQuote c = true) (hd : isQuote d = false) : c ≠ d := by
  rintro rfl
  exact absurd (hc.symm.trans hd) (by decide)

theorem ne_backslash_of_isQuote {c : Char} (h : isQuote c) : c ≠ '\\' := ne_of_isQuote h rfl

theorem takeWhile_of_lineEnd {body rest : List Char} (hb : '\n' ∉ body)
    (hr : rest = [] ∨ rest.head? = some '\n') : (body ++ rest).takeWhile (· != '\n') = body := by
  have hp : ∀ c ∈ body, (c != '\n') = true := by
    intro c hc
    simp only [bne_iff_ne]
    rintro rfl
    exact hb hc
  rw [List.takeWhile_append_of_pos hp]
  rcases hr with rfl | hr
  · simp
  · obtain ⟨c, cs, rfl⟩ : ∃ c cs, rest = c :: cs := by
      cases rest with
      | nil => simp at hr
      | cons c cs => exact ⟨c, cs, rfl⟩
    have hc : c = '\n' := Option.some.inj hr
    simp [hc]

/-- Reading loses nothing. -/
theorem text_next (c : Char) (cs : List Char) : (next c cs).1.text ++ (next c cs).2 = c :: cs := by
  unfold next
  split_ifs with hc hq
  · subst hc
    split
    · rename_i r
      simp [text, List.takeWhile_append_dropWhile]
    · split
      · rename_i body rest hb
        obtain ⟨-, -, hs, -⟩ := blockBody?_eq_some_iff.mp hb
        simp [text, hs]
      · rfl
    · rfl
  · split
    · rename_i body rest hb
      obtain ⟨-, -, hs, -⟩ := (quotedBody?_eq_some_iff (ne_backslash_of_isQuote hq)).mp hb
      simp [text, hs]
    · rfl
  · rfl

theorem spells_next {c : Char} {cs : List Char} {k : TokenKind}
    (h : (next c cs).1.kind? = some k) : k.Spells (next c cs).1.text (next c cs).2 := by
  unfold next at h ⊢
  split_ifs at h ⊢ with hc hq
  · subst hc
    split at h
    · rename_i r
      obtain rfl := Option.some.inj h
      refine ⟨r.takeWhile (· != '\n'), rfl, ?_, ?_⟩
      · intro hm
        simpa using List.mem_takeWhile_imp hm
      · have hd := List.head?_dropWhile_not (· != '\n') r
        cases hr : r.dropWhile (· != '\n') with
        | nil => exact Or.inl rfl
        | cons d ds => rw [hr] at hd; exact Or.inr (by simpa using hd)
    · rename_i r
      split at h
      · rename_i body rest hb
        obtain rfl := Option.some.inj h
        obtain ⟨inside, rfl, -, hi⟩ := blockBody?_eq_some_iff.mp hb
        exact ⟨inside, rfl, hi⟩
      · exact absurd h (by simp [kind?])
    · exact absurd h (by simp [kind?])
  · split at h
    · rename_i body rest hb
      obtain rfl := Option.some.inj h
      obtain ⟨inside, rfl, -, hi⟩ :=
        (quotedBody?_eq_some_iff (ne_backslash_of_isQuote hq)).mp hb
      exact ⟨c, (isQuote_iff c).mp hq, inside, rfl, hi⟩
    · exact absurd h (by simp [kind?])
  · exact absurd h (by simp [kind?])

/-- A token that stands at the front is the one that is read. -/
theorem next_of_spells {c : Char} {cs word rest : List Char} {k : TokenKind}
    (h : k.Spells word rest) (hs : c :: cs = word ++ rest) :
    (next c cs).1.kind? = some k ∧ (next c cs).1.text = word := by
  cases k with
  | lineComment =>
    obtain ⟨body, rfl, hb, hr⟩ := h
    obtain ⟨rfl, rfl⟩ := List.cons.inj hs
    simp [next, kind?, text, takeWhile_of_lineEnd hb hr]
  | blockComment =>
    obtain ⟨body, rfl, hb⟩ := h
    obtain ⟨rfl, rfl⟩ := List.cons.inj hs
    have hr : blockBody? (body ++ ['*', '/'] ++ rest) = some (body ++ ['*', '/'], rest) :=
      blockBody?_eq_some_iff.mpr ⟨body, rfl, rfl, hb⟩
    change (next '/' ('*' :: (body ++ ['*', '/'] ++ rest))).1.kind? = _ ∧
      (next '/' ('*' :: (body ++ ['*', '/'] ++ rest))).1.text = _
    unfold next
    rw [if_pos rfl]
    simp only [hr]
    exact ⟨rfl, rfl⟩
  | literal =>
    obtain ⟨quote, hq, body, rfl, hb⟩ := h
    obtain ⟨rfl, rfl⟩ := List.cons.inj hs
    have hi := (isQuote_iff c).mpr hq
    have hn : c ≠ '/' := ne_of_isQuote hi rfl
    have hr : quotedBody? c (body ++ [c] ++ rest) = some (body ++ [c], rest) :=
      (quotedBody?_eq_some_iff (ne_backslash_of_isQuote hi)).mpr ⟨body, rfl, rfl, hb⟩
    change (next c (body ++ [c] ++ rest)).1.kind? = _ ∧
      (next c (body ++ [c] ++ rest)).1.text = _
    unfold next
    rw [if_neg hn, if_pos hi, hr]
    exact ⟨rfl, rfl⟩

end Lexeme

/-- The lexeme as a token that starts at `place`. -/
def Lexeme.token? (place : ℕ) (l : Lexeme) : Option Token :=
  l.kind?.map fun k => ⟨k, place, place + l.text.length⟩

/-- The tokens of lexemes that start at `place`. -/
def tokensFrom (place : ℕ) : List Lexeme → List Token
  | [] => []
  | l :: ls => (l.token? place).toList ++ tokensFrom (place + l.text.length) ls

def tokens (code : List Char) : List Token := tokensFrom 0 (lexemes code)

theorem tokenised_tokensFrom {code : List Char} (text : List Char) {place : ℕ}
    (hd : code.drop place = text) (hp : place ≤ code.length) :
    Tokenised code place (tokensFrom place (lexemes text)) := by
  fun_induction lexemes text generalizing place with
  | case1 =>
    have hl : place = code.length := by
      have := List.drop_eq_nil_iff.mp hd
      omega
    exact .done hl
  | case2 c cs ih =>
    have ht := Lexeme.text_next c cs
    have hl : place + (Lexeme.next c cs).1.text.length ≤ code.length := by
      have := congrArg List.length (hd.trans ht.symm)
      rw [List.length_drop, List.length_append] at this
      omega
    have hr : code.drop (place + (Lexeme.next c cs).1.text.length) = (Lexeme.next c cs).2 := by
      rw [← List.drop_drop, hd, ← ht, List.drop_left]
    have hrest := ih hr hl
    unfold tokensFrom Lexeme.token?
    cases hk : (Lexeme.next c cs).1.kind? with
    | some k =>
      exact .token rfl ⟨_, _, hd.trans ht.symm, rfl, Lexeme.spells_next hk⟩ hrest
    | none =>
      have hone : (Lexeme.next c cs).1.text.length = 1 := by
        cases hn : (Lexeme.next c cs).1 with
        | plain d => rfl
        | lineComment t => rw [hn] at hk; exact absurd hk (by simp [Lexeme.kind?])
        | blockComment t => rw [hn] at hk; exact absurd hk (by simp [Lexeme.kind?])
        | literal t => rw [hn] at hk; exact absurd hk (by simp [Lexeme.kind?])
      rw [hone] at hrest hl ⊢
      refine .plain hl ?_ hrest
      rintro t rfl ⟨word, rest, hw, -, hs⟩
      have := (Lexeme.next_of_spells hs (hd.symm.trans hw)).1
      rw [hk] at this
      exact absurd this (by simp)

theorem tokenised_tokens (code : List Char) : Tokenised code 0 (tokens code) :=
  tokenised_tokensFrom code (List.drop_zero) (Nat.zero_le _)

theorem TokenKind.Spells.length_pos {k : TokenKind} {word rest : List Char}
    (h : k.Spells word rest) : 0 < word.length := by
  cases k with
  | lineComment =>
    obtain ⟨body, rfl, -⟩ := h
    exact Nat.succ_pos _
  | blockComment =>
    obtain ⟨body, rfl, -⟩ := h
    exact Nat.succ_pos _
  | literal =>
    obtain ⟨quote, -, body, rfl, -⟩ := h
    exact Nat.succ_pos _

/-- At most one token stands at each place. -/
theorem Token.Stands.eq {code : List Char} {s t : Token} (hs : s.Stands code) (ht : t.Stands code)
    (h : s.start = t.start) : s = t := by
  obtain ⟨v, r, hv, hsv, hks⟩ := hs
  obtain ⟨w, q, hw, htw, hkt⟩ := ht
  obtain ⟨c, cs, hc⟩ : ∃ c cs, v ++ r = c :: cs := by
    apply List.exists_cons_of_ne_nil
    exact List.append_ne_nil_of_left_ne_nil (List.ne_nil_of_length_pos hks.length_pos) r
  obtain ⟨hk₁, ht₁⟩ := Lexeme.next_of_spells hks hc.symm
  have hc' : c :: cs = w ++ q := by rw [← hc, ← hv, h, hw]
  obtain ⟨hk₂, ht₂⟩ := Lexeme.next_of_spells hkt hc'
  have hk : s.kind = t.kind := Option.some.inj (hk₁.symm.trans hk₂)
  have hl : v = w := ht₁.symm.trans ht₂
  cases s
  cases t
  simp_all

theorem Token.Stands.lt_length {code : List Char} {t : Token} (h : t.Stands code) :
    t.start < code.length := by
  obtain ⟨word, rest, hw, -, hs⟩ := h
  have hl := congrArg List.length hw
  rw [List.length_drop, List.length_append] at hl
  have hp := hs.length_pos
  omega

/-- A text is cut in one way. -/
theorem Tokenised.unique {code : List Char} {place : ℕ} {ts us : List Token}
    (ht : Tokenised code place ts) (hu : Tokenised code place us) : us = ts := by
  induction ht generalizing us with
  | done hp =>
    cases hu with
    | done _ => rfl
    | token hs h _ => exact absurd h.lt_length (by omega)
    | plain h _ _ => exact absurd h (by omega)
  | token hs h _ ih =>
    cases hu with
    | done hp => exact absurd h.lt_length (by omega)
    | token hs' h' hu =>
      obtain rfl := h.eq h' (hs.trans hs'.symm)
      rw [ih hu]
    | plain _ hn _ => exact absurd h (hn _ hs)
  | plain hp hn _ ih =>
    cases hu with
    | done _ => exact absurd hp (by omega)
    | token hs h _ => exact absurd h (hn _ hs)
    | plain _ _ hu => exact ih hu

end SnippetLint.Source
