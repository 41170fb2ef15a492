import SnippetLint.Proofs.Source.Remasking

/-! The lexemes of a text up to some place, and the text that follows there. They stay when another
text follows, as long as nothing that was plain opens a token then and no `//` comment goes on. -/
namespace SnippetLint.Source
open Text

variable {c : Char} {cs ds rest rest' : List Char}

/-- Where nothing closes the quote in the second text, nothing does in the first, be the first
character of both escaped or not. -/
structure KeepsOpen (quote : Char) (a b : List Char) : Prop where
  fresh : Unclosed quote b → Unclosed quote a
  escaped : Unclosed quote ('\\' :: b) → Unclosed quote ('\\' :: a)

theorem KeepsOpen.append_left {quote : Char} {a b : List Char} (hq : quote ≠ '\\')
    (h : KeepsOpen quote a b) (before : List Char) :
    KeepsOpen quote (before ++ a) (before ++ b) := by
  induction before with
  | nil => exact h
  | cons c before ih =>
    refine ⟨fun hu => ?_, fun hu => ?_⟩
    · have hc : c ≠ quote := fun hc => not_unclosed_quote _ (hc ▸ hu)
      by_cases hb : c = '\\'
      · subst hb
        exact ih.escaped hu
      · exact (unclosed_cons hc hb _).mpr (((unclosed_cons hc hb _).mp hu).imp_right ih.fresh)
    · exact (unclosed_escape hq c _).mpr (((unclosed_escape hq c _).mp hu).imp_right ih.fresh)

namespace Lexeme

theorem eq_of_kind?_of_text {l m : Lexeme} (hk : l.kind? = m.kind?) (ht : l.text = m.text) :
    l = m := by
  cases l <;> cases m <;> simp_all [kind?, text]

theorem exists_eq_plain {l : Lexeme} (h : l.kind? = none) : ∃ c, l = .plain c := by
  cases l <;> simp_all [kind?]

theorem exists_eq_lineComment {l : Lexeme} (h : l.kind? = some .lineComment) :
    ∃ t, l = .lineComment t := by
  cases l <;> simp_all [kind?]

theorem next_of_plain (h : (next c cs).1 = .plain c) : next c cs = (.plain c, cs) := by
  have ht := text_next c cs
  rw [h] at ht
  exact Prod.ext h (List.cons.inj ht).2

theorem quotedBody?_of_plain (hq : isQuote c = true) (h : (next c cs).1 = .plain c) :
    quotedBody? c cs = none := by
  have hc : c ≠ '/' := ne_of_isQuote hq rfl
  cases hb : quotedBody? c cs with
  | none => rfl
  | some r => exact absurd h (by simp [next, hc, hq, hb])

theorem next_of_quotedBody? (hq : isQuote c = true) (h : quotedBody? c cs = none) :
    (next c cs).1 = .plain c := by
  have hc : c ≠ '/' := ne_of_isQuote hq rfl
  simp only [next, if_neg hc, if_pos hq, h]

/-- A slash is plain if it opens neither kind of comment. -/
theorem next_slash_iff :
    (next '/' cs).1 = .plain '/' ↔
      cs.head? ≠ some '/' ∧ ∀ ds, cs = '*' :: ds → blockBody? ds = none := by
  constructor
  · intro h
    refine ⟨fun hs => ?_, ?_⟩
    · obtain ⟨ds, rfl⟩ := List.head?_eq_some_iff.mp hs
      exact absurd h (by simp [next])
    · rintro ds rfl
      cases hb : blockBody? ds with
      | none => rfl
      | some r => exact absurd h (by simp [next, hb])
  · rintro ⟨hs, hb⟩
    cases cs with
    | nil => rfl
    | cons d ds =>
      have hd : d ≠ '/' := fun hd => hs (congrArg some hd)
      rw [next_slash hd fun hstar => hb ds (by rw [hstar])]

/-- A plain character stays plain before another text in which nothing more closes what it might
open. -/
theorem next_of_plain_before (h : (next c cs).1 = .plain c)
    (hslash : cs.head? ≠ some '/' → ds.head? ≠ some '/')
    (hstar : c = '/' → ∀ es, ds = '*' :: es → ∃ fs, cs = '*' :: fs ∧
      (blockBody? fs = none → blockBody? es = none))
    (hquote : isQuote c = true → Unclosed c cs → Unclosed c ds) : (next c ds).1 = .plain c := by
  by_cases hc : c = '/'
  · subst hc
    obtain ⟨hs, hb⟩ := next_slash_iff.mp h
    refine next_slash_iff.mpr ⟨hslash hs, fun es hes => ?_⟩
    obtain ⟨fs, hfs, hnone⟩ := hstar rfl es hes
    exact hnone (hb fs hfs)
  by_cases hq : isQuote c = true
  · exact next_of_quotedBody? hq (hquote hq (quotedBody?_of_plain hq h))
  · rw [Bool.not_eq_true] at hq
    rw [next_plain hc hq]

end Lexeme

theorem Starts.exists_text {l : Lexeme} (h : Starts c cs l rest) : ∃ t, l.text = c :: t := by
  cases h with
  | plain => exact ⟨[], rfl⟩
  | lineComment => exact ⟨_, rfl⟩
  | blockComment => exact ⟨_, rfl⟩
  | literal => exact ⟨_, rfl⟩

/-- What holds of a text when it holds of the text after the first lexeme holds of every text. -/
theorem lexemes_induction {motive : List Char → Prop} (nil : motive [])
    (cons : ∀ c cs l rest, Lexeme.next c cs = (l, rest) → Starts c cs l rest → motive rest →
      motive (c :: cs)) (code : List Char) : motive code := by
  induction code using lexemes.induct with
  | case1 => exact nil
  | case2 c cs ih => exact cons c cs _ _ rfl (starts_next c cs) ih

theorem lexemes_of_next {l : Lexeme} (h : Lexeme.next c cs = (l, rest)) :
    lexemes (c :: cs) = l :: lexemes rest := by
  rw [lexemes_cons, h]

theorem Lexeme.text_of_next {l : Lexeme} (h : next c cs = (l, rest)) :
    l.text ++ rest = c :: cs := by
  have ht := text_next c cs
  rwa [h] at ht

theorem exists_starts_of_mem_lexemes {l : Lexeme} {code : List Char} (h : l ∈ lexemes code) :
    ∃ c cs rest, Starts c cs l rest := by
  induction code using lexemes_induction with
  | nil =>
    rw [lexemes_nil] at h
    exact absurd h List.not_mem_nil
  | cons c cs m rest hnext hs ih =>
    rw [lexemes_of_next hnext] at h
    rcases List.mem_cons.mp h with rfl | h
    · exact ⟨c, cs, rest, hs⟩
    · exact ih h

/-- The first lexeme of a text, and those of the text after it. -/
theorem lexemes_eq_cons {l : Lexeme} {ls : List Lexeme} {code : List Char}
    (h : lexemes code = l :: ls) :
    ∃ c cs t, code = c :: cs ∧ l.text = c :: t ∧ Lexeme.next c cs = (l, ls.flatMap Lexeme.text) ∧
      lexemes (ls.flatMap Lexeme.text) = ls := by
  cases code with
  | nil =>
    rw [lexemes_nil] at h
    exact absurd h.symm (List.cons_ne_nil l ls)
  | cons c cs =>
    rw [lexemes_cons] at h
    obtain ⟨rfl, hothers⟩ := List.cons.inj h
    obtain ⟨t, ht⟩ := (starts_next c cs).exists_text
    have hrest : (Lexeme.next c cs).2 = ls.flatMap Lexeme.text := by
      rw [← hothers, flatMap_text_lexemes]
    exact ⟨c, cs, t, rfl, ht, Prod.ext rfl hrest, hrest ▸ hothers⟩

/-- Of the forms of tokens only the `//` comment looks at what follows it. -/
theorem TokenKind.Spells.before {k : TokenKind} {word : List Char} (h : k.Spells word rest)
    (hend : k = .lineComment → rest = [] ∨ rest.head? = some '\n' →
      rest' = [] ∨ rest'.head? = some '\n') : k.Spells word rest' := by
  cases k with
  | blockComment => exact h
  | literal => exact h
  | lineComment =>
    obtain ⟨body, hw, hn, hr⟩ := h
    exact ⟨body, hw, hn, hend rfl hr⟩

theorem next_before {l : Lexeme} (h : Lexeme.next c cs = (l, rest))
    (hds : l.text ++ rest' = c :: ds)
    (hplain : l = .plain c → (Lexeme.next c ds).1 = .plain c)
    (hend : ∀ t, l = .lineComment t → rest = [] ∨ rest.head? = some '\n' →
      rest' = [] ∨ rest'.head? = some '\n') : Lexeme.next c ds = (l, rest') := by
  have hspells := @Lexeme.spells_next c cs
  have htext := Lexeme.text_next c cs
  rw [h] at hspells htext
  have hl : (Lexeme.next c ds).1 = l := by
    cases hk : l.kind? with
    | none =>
      obtain ⟨d, rfl⟩ := Lexeme.exists_eq_plain hk
      obtain rfl : d = c := (List.cons.inj hds).1
      exact hplain rfl
    | some k =>
      have hcomment : k = .lineComment → rest = [] ∨ rest.head? = some '\n' →
          rest' = [] ∨ rest'.head? = some '\n' := by
        rintro rfl
        obtain ⟨t, ht⟩ := Lexeme.exists_eq_lineComment hk
        exact hend t ht
      obtain ⟨hkind, hword⟩ := Lexeme.next_of_spells ((hspells hk).before hcomment) hds.symm
      exact Lexeme.eq_of_kind?_of_text (hkind.trans hk.symm) hword
  have hrest := (Lexeme.text_next c ds).trans hds.symm
  rw [hl] at hrest
  exact Prod.ext hl (List.append_cancel_left hrest)

/-- The lexemes before a place are read as before when another text follows there. -/
theorem lexemes_before {ls ms : List Lexeme} {code rest : List Char}
    (hl : lexemes code = ls ++ ms)
    (hplain : ∀ us d vs, ls = us ++ .plain d :: vs →
      (Lexeme.next d (vs.flatMap Lexeme.text ++ ms.flatMap Lexeme.text)).1 = .plain d →
      (Lexeme.next d (vs.flatMap Lexeme.text ++ rest)).1 = .plain d)
    (hend : ∀ t, ls.getLast? = some (.lineComment t) →
      ms.flatMap Lexeme.text = [] ∨ (ms.flatMap Lexeme.text).head? = some '\n' →
      rest = [] ∨ rest.head? = some '\n') :
    lexemes (ls.flatMap Lexeme.text ++ rest) = ls ++ lexemes rest := by
  induction ls generalizing code with
  | nil => rfl
  | cons l ls ih =>
    rw [List.cons_append] at hl
    obtain ⟨c, cs, t, -, ht, hnext, hothers⟩ := lexemes_eq_cons hl
    rw [List.flatMap_append] at hnext
    have hkept : Lexeme.next c (t ++ (ls.flatMap Lexeme.text ++ rest)) =
        (l, ls.flatMap Lexeme.text ++ rest) := by
      refine next_before hnext (by rw [ht, List.cons_append]) ?_ ?_
      · rintro rfl
        obtain rfl : t = [] := (List.cons.inj ht).2.symm
        have hfirst : (Lexeme.next c cs).1 = .plain c := congrArg Prod.fst hnext
        rw [Lexeme.next_of_plain hfirst] at hnext
        obtain rfl : cs = _ := congrArg Prod.snd hnext
        exact hplain [] c ls rfl hfirst
      · rintro u rfl
        cases ls with
        | nil => exact hend u rfl
        | cons m ls =>
          obtain ⟨d, -, u, -, hd, -⟩ := lexemes_eq_cons hothers
          rw [List.flatMap_cons, hd]
          simp
    rw [List.flatMap_cons, List.append_assoc, ht, List.cons_append, lexemes_cons, hkept,
      List.cons_append, ih hothers]
    · exact fun us d vs hus => hplain (l :: us) d vs (by rw [hus, List.cons_append])
    · intro t ht
      apply hend t
      rw [List.getLast?_cons, ht]
      rfl

/-- From a place between two lexemes on, a text is read as if nothing came before. -/
theorem lexemes_after {ls ms : List Lexeme} {code : List Char} (hl : lexemes code = ls ++ ms) :
    lexemes (ms.flatMap Lexeme.text) = ms := by
  have h := lexemes_before hl (fun _ _ _ _ => id) fun _ _ => id
  rw [← List.flatMap_append, ← hl, flatMap_text_lexemes] at h
  exact List.append_cancel_left (h.symm.trans hl)

/-- No token goes over a place between two lexemes. -/
theorem apart_of_mem_tokens {ls ms : List Lexeme} {code : List Char} (hl : lexemes code = ls ++ ms)
    {t : Token} (ht : t ∈ tokens code) :
    t.stop ≤ (ls.flatMap Lexeme.text).length ∨ (ls.flatMap Lexeme.text).length ≤ t.start := by
  rw [tokens, hl, tokensFrom_append, Nat.zero_add] at ht
  rcases List.mem_append.mp ht with ht | ht
  · have hstop := stop_of_mem_tokensFrom ht
    rw [Nat.zero_add] at hstop
    exact Or.inl hstop
  · exact Or.inr (start_of_mem_tokensFrom ht)

end SnippetLint.Source
