import Mathlib.Data.List.Infix
import Mathlib.Tactic.Tauto
import SnippetLint.Source.Mask

/-! The comments and literals of a source text as a relation on its characters, said without
a reader. A text is cut in exactly one way, and that is how it is read. -/
namespace SnippetLint.Source
open Text

inductive TokenKind where
  | lineComment
  | blockComment
  | literal
deriving DecidableEq, Repr

def trailingBackslashes (text : List Char) : ℕ := (text.reverse.takeWhile (· == '\\')).length

/-- After `inside`, all of a literal from its opening quote on, a character is escaped. -/
def Escapes (inside : List Char) : Prop := trailingBackslashes inside % 2 = 1

/-- `body` stands between `/*` and the first `*/` after it. -/
def BlockBody (body : List Char) : Prop := ¬ ['*', '/'] <:+: body ++ ['*']

/-- `body` stands between a quote and the first of the same that is not escaped. A line feed,
escaped or not, is only allowed between backticks. -/
structure QuotedBody (quote : Char) (body : List Char) : Prop where
  unescaped : ¬ Escapes body
  escaped : ∀ a b, body = a ++ quote :: b → Escapes a
  oneLine : quote ≠ '`' → '\n' ∉ body

/-- `word` is a token of the kind where `rest` comes after it. -/
def TokenKind.Spells : TokenKind → List Char → List Char → Prop
  | lineComment, word, rest =>
    ∃ body, word = '/' :: '/' :: body ∧ '\n' ∉ body ∧ (rest = [] ∨ rest.head? = some '\n')
  | blockComment, word, _ => ∃ body, word = '/' :: '*' :: (body ++ ['*', '/']) ∧ BlockBody body
  | literal, word, _ =>
    ∃ quote ∈ ['"', '\'', '`'], ∃ body, word = quote :: (body ++ [quote]) ∧ QuotedBody quote body

/-- The characters from `start` up to `stop`. -/
structure Token where
  kind : TokenKind
  start : ℕ
  stop : ℕ
deriving DecidableEq, Repr

def Token.Stands (code : List Char) (t : Token) : Prop :=
  ∃ word rest, code.drop t.start = word ++ rest ∧ t.stop = t.start + word.length ∧
    t.kind.Spells word rest

/-- The tokens of the code from `place` on, where no token before `place` goes on. What no token
starts at is a plain character. -/
inductive Tokenised (code : List Char) : ℕ → List Token → Prop where
  | done {place : ℕ} : place = code.length → Tokenised code place []
  | token {place : ℕ} {t : Token} {ts : List Token} :
      t.start = place → t.Stands code → Tokenised code t.stop ts → Tokenised code place (t :: ts)
  | plain {place : ℕ} {ts : List Token} :
      place < code.length → (∀ t : Token, t.start = place → ¬ t.Stands code) →
      Tokenised code (place + 1) ts → Tokenised code place ts

theorem escapes_cons {c : Char} (h : c ≠ '\\') (a : List Char) : Escapes (c :: a) ↔ Escapes a := by
  have hc : [c].takeWhile (· == '\\') = [] := by simp [h]
  unfold Escapes trailingBackslashes
  rw [List.reverse_cons, List.takeWhile_append, hc]
  split_ifs with hl
  · rw [List.append_nil, hl]
  · rfl

theorem escapes_escape (d : Char) (a : List Char) : Escapes ('\\' :: d :: a) ↔ Escapes a := by
  have hr : ('\\' :: d :: a).reverse = a.reverse ++ [d, '\\'] := by simp
  unfold Escapes trailingBackslashes
  rw [hr, List.takeWhile_append]
  split_ifs with hl
  · by_cases hd : d = '\\'
    · simp only [List.takeWhile, hd, beq_self_eq_true, List.length_append, hl]
      simp
    · simp [hd, hl]
  · rfl

theorem not_escapes_nil : ¬ Escapes [] := by simp [Escapes, trailingBackslashes]

theorem escapes_backslash : Escapes ['\\'] := by simp [Escapes, trailingBackslashes]

theorem quotedBody_nil (quote : Char) : QuotedBody quote [] where
  unescaped := not_escapes_nil
  escaped a b h := by simp at h
  oneLine _ := List.not_mem_nil

theorem not_quotedBody_backslash (quote : Char) : ¬ QuotedBody quote ['\\'] :=
  fun h => h.unescaped escapes_backslash

theorem quotedBody_cons {quote c : Char} (hc : c ≠ '\\') (body : List Char) :
    QuotedBody quote (c :: body) ↔
      c ≠ quote ∧ (quote ≠ '`' → c ≠ '\n') ∧ QuotedBody quote body := by
  constructor
  · rintro ⟨hu, he, hl⟩
    refine ⟨?_, fun hq hn => hl hq (hn ▸ List.mem_cons_self), ?_, ?_, ?_⟩
    · rintro rfl
      exact not_escapes_nil (he [] body rfl)
    · rwa [escapes_cons hc] at hu
    · intro a b h
      rw [← escapes_cons hc]
      exact he (c :: a) b (by rw [h, List.cons_append])
    · exact fun hq hn => hl hq (List.mem_cons_of_mem c hn)
  · rintro ⟨hq, hn, hu, he, hl⟩
    refine ⟨by rwa [escapes_cons hc], ?_, ?_⟩
    · intro a b h
      cases a with
      | nil => exact absurd (List.cons.inj h).1 hq
      | cons x a =>
        obtain ⟨rfl, hb⟩ := List.cons.inj h
        exact (escapes_cons hc a).mpr (he a b hb)
    · intro hb hm
      rcases List.mem_cons.mp hm with h | h
      · exact hn hb h.symm
      · exact hl hb h

theorem quotedBody_escape {quote : Char} (hq : quote ≠ '\\') (d : Char) (body : List Char) :
    QuotedBody quote ('\\' :: d :: body) ↔ (quote ≠ '`' → d ≠ '\n') ∧ QuotedBody quote body := by
  constructor
  · rintro ⟨hu, he, hl⟩
    refine ⟨fun hb hd => hl hb (by simp [hd]), ?_, ?_, ?_⟩
    · rwa [escapes_escape] at hu
    · intro a b h
      rw [← escapes_escape d]
      exact he ('\\' :: d :: a) b (by rw [h, List.cons_append, List.cons_append])
    · exact fun hb hm => hl hb (List.mem_cons_of_mem _ (List.mem_cons_of_mem _ hm))
  · rintro ⟨hd, hu, he, hl⟩
    refine ⟨by rwa [escapes_escape], ?_, ?_⟩
    · intro a b h
      rcases a with _ | ⟨x, _ | ⟨y, a⟩⟩
      · exact absurd (List.cons.inj h).1.symm hq
      · rw [← (List.cons.inj h).1]
        exact escapes_backslash
      · have hx := (List.cons.inj h).1
        have hb := (List.cons.inj (List.cons.inj h).2).2
        rw [← hx]
        exact (escapes_escape y a).mpr (he a b hb)
    · intro hb hm
      simp only [List.mem_cons] at hm
      rcases hm with h | h | h
      · exact absurd h (by decide)
      · exact hd hb h.symm
      · exact hl hb h

theorem blockBody_nil : BlockBody [] := by
  unfold BlockBody
  decide

theorem blockBody_cons (c : Char) (body : List Char) :
    BlockBody (c :: body) ↔ BlockBody body ∧ ¬ (c = '*' ∧ (body ++ ['*']).head? = some '/') := by
  have hp : ['*', '/'] <+: c :: (body ++ ['*']) ↔ c = '*' ∧ (body ++ ['*']).head? = some '/' := by
    cases h : body ++ ['*'] with
    | nil => simp
    | cons d ds => simp [List.cons_prefix_cons, eq_comm]
  unfold BlockBody
  rw [List.cons_append, List.infix_cons_iff, hp]
  tauto

namespace Lexeme

/-- The reader of block comments finds the first end there is. -/
theorem blockBody?_eq_some_iff {cs word rest : List Char} :
    blockBody? cs = some (word, rest) ↔
      ∃ body, word = body ++ ['*', '/'] ∧ cs = word ++ rest ∧ BlockBody body := by
  fun_induction blockBody? cs generalizing word rest with
  | case1 =>
    simp only [reduceCtorEq, false_iff]
    rintro ⟨body, rfl, hs, -⟩
    simp at hs
  | case2 tail =>
    constructor
    · intro h
      obtain ⟨rfl, rfl⟩ := Prod.mk.inj (Option.some.inj h)
      exact ⟨[], rfl, rfl, blockBody_nil⟩
    · rintro ⟨body, rfl, hs, hb⟩
      cases body with
      | nil => simp at hs; rw [hs]; rfl
      | cons c body =>
        have hc := (List.cons.inj hs).1
        have ht := (List.cons.inj hs).2
        refine absurd ⟨hc.symm, ?_⟩ ((blockBody_cons c body).mp hb).2
        cases body with
        | nil => simp at ht
        | cons d body => simp at ht ⊢; exact ht.1.symm
  | case3 c cs hn ih =>
    rw [Option.map_eq_some_iff]
    constructor
    · rintro ⟨⟨w, r⟩, hr, h⟩
      obtain ⟨rfl, rfl⟩ := Prod.mk.inj h
      obtain ⟨body, rfl, rfl, hb⟩ := ih.mp hr
      refine ⟨c :: body, rfl, rfl, (blockBody_cons c body).mpr ⟨hb, ?_⟩⟩
      rintro ⟨rfl, hh⟩
      cases body with
      | nil => simp at hh
      | cons d body => simp at hh; exact hn _ rfl (by rw [hh]; rfl)
    · rintro ⟨body, rfl, hs, hb⟩
      cases body with
      | nil =>
        have hc := (List.cons.inj hs).1
        have ht := (List.cons.inj hs).2
        exact absurd ht (hn _ hc)
      | cons d body =>
        obtain ⟨rfl, ht⟩ := List.cons.inj hs
        exact ⟨(body ++ ['*', '/'], rest),
          ih.mpr ⟨body, rfl, ht, ((blockBody_cons c body).mp hb).1⟩, rfl⟩

/-- The reader of literals finds the first quote that is not escaped. -/
theorem quotedBody?_eq_some_iff {quote : Char} (hq : quote ≠ '\\') {cs word rest : List Char} :
    quotedBody? quote cs = some (word, rest) ↔
      ∃ body, word = body ++ [quote] ∧ cs = word ++ rest ∧ QuotedBody quote body := by
  fun_induction quotedBody? quote cs generalizing word rest with
  | case1 =>
    simp only [reduceCtorEq, false_iff]
    rintro ⟨body, rfl, hs, -⟩
    simp at hs
  | case2 cs =>
    constructor
    · intro h
      obtain ⟨rfl, rfl⟩ := Prod.mk.inj (Option.some.inj h)
      exact ⟨[], rfl, rfl, quotedBody_nil quote⟩
    · rintro ⟨body, rfl, hs, hb⟩
      cases body with
      | nil => simp at hs; rw [hs]; rfl
      | cons d body =>
        have hd : quote = d := (List.cons.inj hs).1
        exact absurd hd.symm ((quotedBody_cons (hd ▸ hq) body).mp hb).1
  | case3 c cs hc hn =>
    simp only [Bool.and_eq_true, decide_eq_true_eq, bne_iff_ne] at hn
    simp only [reduceCtorEq, false_iff]
    rintro ⟨body, rfl, hs, hb⟩
    cases body with
    | nil => exact hc (List.cons.inj hs).1
    | cons d body =>
      have hd : c = d := (List.cons.inj hs).1
      exact hb.oneLine hn.2 (by simp [← hd, hn.1])
  | case4 hc hn =>
    simp only [reduceCtorEq, false_iff]
    rintro ⟨body, rfl, hs, hb⟩
    cases body with
    | nil => exact hc (List.cons.inj hs).1
    | cons d body => simp at hs
  | case5 d ds hd hc hn =>
    simp only [Bool.and_eq_true, decide_eq_true_eq, bne_iff_ne] at hd
    simp only [reduceCtorEq, false_iff]
    rintro ⟨body, rfl, hs, hb⟩
    rcases body with _ | ⟨x, _ | ⟨y, body⟩⟩
    · exact hc (List.cons.inj hs).1
    · have hx : '\\' = x := (List.cons.inj hs).1
      exact not_quotedBody_backslash quote (hx ▸ hb)
    · have hy : d = y := (List.cons.inj (List.cons.inj hs).2).1
      exact hb.oneLine hd.2 (by simp [← hy, hd.1])
  | case6 d ds hd hc hn ih =>
    simp only [Bool.and_eq_true, decide_eq_true_eq, bne_iff_ne, not_and] at hd
    rw [Option.map_eq_some_iff]
    constructor
    · rintro ⟨⟨w, r⟩, hr, h⟩
      obtain ⟨rfl, rfl⟩ := Prod.mk.inj h
      obtain ⟨body, rfl, rfl, hb⟩ := ih.mp hr
      exact ⟨'\\' :: d :: body, rfl, rfl,
        (quotedBody_escape hq d body).mpr ⟨fun h₁ h₂ => hd h₂ h₁, hb⟩⟩
    · rintro ⟨body, rfl, hs, hb⟩
      rcases body with _ | ⟨x, _ | ⟨y, body⟩⟩
      · exact absurd (List.cons.inj hs).1 hc
      · have hx : '\\' = x := (List.cons.inj hs).1
        exact absurd (hx ▸ hb) (not_quotedBody_backslash quote)
      · have hx : '\\' = x := (List.cons.inj hs).1
        obtain ⟨rfl, ht⟩ := List.cons.inj (List.cons.inj hs).2
        rw [← hx] at hb ⊢
        exact ⟨(body ++ [quote], rest),
          ih.mpr ⟨body, rfl, ht, ((quotedBody_escape hq d body).mp hb).2⟩, rfl⟩
  | case7 c cs hc hn he ih =>
    simp only [Bool.and_eq_true, decide_eq_true_eq, bne_iff_ne, not_and] at hn
    rw [Option.map_eq_some_iff]
    constructor
    · rintro ⟨⟨w, r⟩, hr, h⟩
      obtain ⟨rfl, rfl⟩ := Prod.mk.inj h
      obtain ⟨body, rfl, rfl, hb⟩ := ih.mp hr
      exact ⟨c :: body, rfl, rfl,
        (quotedBody_cons he body).mpr ⟨hc, fun h₁ h₂ => hn h₂ h₁, hb⟩⟩
    · rintro ⟨body, rfl, hs, hb⟩
      cases body with
      | nil => exact absurd (List.cons.inj hs).1 hc
      | cons d body =>
        obtain ⟨rfl, ht⟩ := List.cons.inj hs
        exact ⟨(body ++ [quote], rest),
          ih.mpr ⟨body, rfl, ht, ((quotedBody_cons he body).mp hb).2.2⟩, rfl⟩

end Lexeme
end SnippetLint.Source
