import SnippetLint.Pass.CDialect
import SnippetLint.Pass.Semicolon
import SnippetLint.Pass.Spelling
import SnippetLint.Pass.UndefinedName
import SnippetLint.Proofs.Source.Masking
import SnippetLint.Proofs.Source.Reading

/-! Masking a masked text changes nothing. What is at stake are openers that nothing closes: the
quote that a backslash keeps from closing must not lose that backslash alone. -/
namespace SnippetLint.Source
open Text

/-- Nothing closes a literal that `quote` opened right before the text. -/
def Unclosed (quote : Char) (text : List Char) : Prop := Lexeme.quotedBody? quote text = none

variable {quote : Char}

theorem unclosed_nil : Unclosed quote [] := rfl

theorem not_unclosed_quote (text : List Char) : ¬ Unclosed quote (quote :: text) := by
  rw [Unclosed, Lexeme.quotedBody?_quote]
  exact Option.some_ne_none _

theorem unclosed_cons {c : Char} (hq : c ≠ quote) (hb : c ≠ '\\') (text : List Char) :
    Unclosed quote (c :: text) ↔ (c = '\n' ∧ quote ≠ '`') ∨ Unclosed quote text := by
  by_cases hn : c = '\n' ∧ quote ≠ '`'
  · obtain ⟨rfl, hk⟩ := hn
    exact iff_of_true (Lexeme.quotedBody?_lineFeed hq hk text) (Or.inl ⟨rfl, hk⟩)
  · rw [Unclosed, Lexeme.quotedBody?_cons hq hb (by simpa using hn), Option.map_eq_none_iff]
    exact (or_iff_right hn).symm

theorem unclosed_escape (hq : quote ≠ '\\') (d : Char) (text : List Char) :
    Unclosed quote ('\\' :: d :: text) ↔ (d = '\n' ∧ quote ≠ '`') ∨ Unclosed quote text := by
  by_cases hd : d = '\n' ∧ quote ≠ '`'
  · obtain ⟨rfl, hk⟩ := hd
    exact iff_of_true (Lexeme.quotedBody?_escapedLineFeed hq hk text) (Or.inl ⟨rfl, hk⟩)
  · rw [Unclosed, Lexeme.quotedBody?_escape hq (by simpa using hd), Option.map_eq_none_iff]
    exact (or_iff_right hd).symm

/-- After a character that is neither a backslash nor the quote reading starts afresh, be that
character escaped or not. -/
theorem Unclosed.past (hq : quote ≠ '\\') {x : Char} (hx : x ≠ quote) (hb : x ≠ '\\')
    {rest : List Char} :
    ∀ before : List Char, (quote ≠ '`' → '\n' ∉ before ++ [x]) →
      Unclosed quote (before ++ x :: rest) → Unclosed quote rest
  | [], hl, h => by
    rcases (unclosed_cons hx hb rest).mp h with ⟨hn, hk⟩ | h
    · exact absurd (by simp [hn]) (hl hk)
    · exact h
  | [c], hl, h => by
    by_cases hc : c = quote
    · exact absurd h (hc ▸ not_unclosed_quote _)
    by_cases hs : c = '\\'
    · subst hs
      rcases (unclosed_escape hq x rest).mp h with ⟨hn, hk⟩ | h
      · exact absurd (by simp [hn]) (hl hk)
      · exact h
    · rcases (unclosed_cons hc hs _).mp h with ⟨hn, hk⟩ | h
      · exact absurd (by simp [hn]) (hl hk)
      · exact Unclosed.past hq hx hb [] (fun hk hm => hl hk (List.mem_cons_of_mem c hm)) h
  | c :: d :: before, hl, h => by
    have hd : quote ≠ '`' → '\n' ∉ d :: before ++ [x] :=
      fun hk hm => hl hk (List.mem_cons_of_mem c hm)
    by_cases hc : c = quote
    · exact absurd h (hc ▸ not_unclosed_quote _)
    by_cases hs : c = '\\'
    · subst hs
      rcases (unclosed_escape hq d _).mp h with ⟨hn, hk⟩ | h
      · exact absurd (by simp [hn]) (hd hk)
      · exact Unclosed.past hq hx hb before (fun hk hm => hd hk (List.mem_cons_of_mem d hm)) h
    · rcases (unclosed_cons hc hs _).mp h with ⟨hn, hk⟩ | h
      · exact absurd (by simp [hn]) (hl hk)
      · exact Unclosed.past hq hx hb (d :: before) hd h

theorem blankOut_eq (c : Char) : blankOut c = '\n' ∨ blankOut c = ' ' := by
  unfold blankOut
  split_ifs
  · exact Or.inl rfl
  · exact Or.inr rfl

theorem blankOut_eq_newline_iff (c : Char) : blankOut c = '\n' ↔ c = '\n' := by
  unfold blankOut
  split_ifs with h
  · exact iff_of_true rfl h
  · exact iff_of_false (by decide) h

theorem blankOut_blankOut (c : Char) : blankOut (blankOut c) = blankOut c := by
  rcases blankOut_eq c with h | h <;> rw [h] <;> rfl

theorem blankOut_ne_of_isQuote {q : Char} (hq : Lexeme.isQuote q = true) (c : Char) :
    blankOut c ≠ q := by
  rintro rfl
  rcases blankOut_eq c with h | h <;> rw [h] at hq <;> exact absurd hq (by decide)

theorem blankOut_ne_backslash (c : Char) : blankOut c ≠ '\\' := by
  rcases blankOut_eq c with h | h <;> rw [h] <;> decide

/-- Among blanks only a line feed can end the search. -/
theorem unclosed_blank (hq : Lexeme.isQuote quote = true) (blank text : List Char) :
    Unclosed quote (blank.map blankOut ++ text) ↔
      ('\n' ∈ blank ∧ quote ≠ '`') ∨ Unclosed quote text := by
  induction blank with
  | nil => simp
  | cons c cs ih =>
    rw [List.map_cons, List.cons_append,
      unclosed_cons (blankOut_ne_of_isQuote hq c) (blankOut_ne_backslash c), ih,
      blankOut_eq_newline_iff, List.mem_cons, eq_comm (a := c)]
    tauto

/-- The first lexeme of a text and what follows it. -/
inductive Starts (c : Char) (cs : List Char) : Lexeme → List Char → Prop where
  | plain : Starts c cs (.plain c) cs
  | lineComment {body rest : List Char} : c = '/' → cs = '/' :: body ++ rest → '\n' ∉ body →
      (rest = [] ∨ rest.head? = some '\n') →
      Starts c cs (.lineComment (c :: '/' :: body)) rest
  | blockComment {body rest : List Char} : c = '/' → cs = ('*' :: body ++ ['*']) ++ '/' :: rest →
      Starts c cs (.blockComment (c :: '*' :: (body ++ ['*', '/']))) rest
  | literal {body rest : List Char} : Lexeme.isQuote c = true → cs = body ++ c :: rest →
      QuotedBody c body → Starts c cs (.literal (c :: (body ++ [c]))) rest

theorem starts_next (c : Char) (cs : List Char) :
    Starts c cs (Lexeme.next c cs).1 (Lexeme.next c cs).2 := by
  have ht := Lexeme.text_next c cs
  have hs := @Lexeme.spells_next c cs
  generalize (Lexeme.next c cs).2 = rest at ht hs ⊢
  cases hl : (Lexeme.next c cs).1 with
  | plain d =>
    rw [hl] at ht
    obtain ⟨rfl, rfl⟩ := List.cons.inj ht
    exact .plain
  | lineComment t =>
    rw [hl] at ht hs
    obtain ⟨body, hb, hn, hr⟩ := hs rfl
    obtain rfl : t = '/' :: '/' :: body := hb
    obtain ⟨rfl, rfl⟩ := List.cons.inj ht
    exact .lineComment rfl rfl hn hr
  | blockComment t =>
    rw [hl] at ht hs
    obtain ⟨body, hb, -⟩ := hs rfl
    obtain rfl : t = '/' :: '*' :: (body ++ ['*', '/']) := hb
    obtain ⟨rfl, rfl⟩ := List.cons.inj ht
    exact .blockComment rfl (by simp)
  | literal t =>
    rw [hl] at ht hs
    obtain ⟨q, hq, body, hb, hbody⟩ := hs rfl
    obtain rfl : t = q :: (body ++ [q]) := hb
    obtain ⟨rfl, rfl⟩ := List.cons.inj ht
    exact .literal ((Lexeme.isQuote_iff q).mpr hq) (by simp) hbody

theorem masked_literal (quote : Char) (body : List Char) :
    (Lexeme.literal (quote :: (body ++ [quote]))).masked =
      quote :: (body.map blankOut ++ [quote]) := by
  simp [Lexeme.masked, blankInside]

/-- Inside a lexeme, past its first character, the search goes on after masking as before. -/
theorem Unclosed.inside (hq : Lexeme.isQuote quote = true) {c : Char} {cs rest : List Char}
    {l : Lexeme} (hs : Starts c cs l rest) (h : Unclosed quote cs)
    (hr : Unclosed quote rest → Unclosed quote (mask rest)) :
    Unclosed quote (l.masked.tail ++ mask rest) := by
  have hb := Lexeme.ne_backslash_of_isQuote hq
  cases hs with
  | plain => exact hr h
  | @lineComment body _ _ hcs hn hrest =>
    refine (unclosed_blank hq ('/' :: body) _).mpr (Or.inr ?_)
    apply hr
    rcases hrest with rfl | hrest
    · exact unclosed_nil
    obtain ⟨r, rfl⟩ : ∃ r, rest = '\n' :: r := by
      cases rest with
      | nil => simp at hrest
      | cons d ds => exact ⟨ds, by rw [Option.some.inj hrest]⟩
    have hnl : '\n' ≠ quote := (Lexeme.ne_of_isQuote hq rfl).symm
    rw [unclosed_cons hnl (by decide)]
    by_cases hk : quote = '`'
    · rw [hcs] at h
      exact Or.inr (h.past hb hnl (by decide) _ fun hne => absurd hk hne)
    · exact Or.inl ⟨rfl, hk⟩
  | @blockComment body _ _ hcs =>
    have hsl : '/' ≠ quote := (Lexeme.ne_of_isQuote hq rfl).symm
    refine (unclosed_blank hq ('*' :: (body ++ ['*', '/'])) _).mpr ?_
    by_cases hk : '\n' ∈ '*' :: (body ++ ['*', '/']) ∧ quote ≠ '`'
    · exact Or.inl hk
    · rw [hcs] at h
      refine Or.inr (hr (h.past hb hsl (by decide) _ fun hne hm => hk ⟨?_, hne⟩))
      simpa using hm
  | @literal body _ hc hcs hbody =>
    have hcq : c ≠ quote := by
      rintro rfl
      have := (Lexeme.quotedBody?_eq_some_iff hb).mpr ⟨body, rfl, by simpa using hcs, hbody⟩
      unfold Unclosed at h
      rw [h] at this
      exact Option.some_ne_none _ this.symm
    have hcb := Lexeme.ne_backslash_of_isQuote hc
    have hcn : c ≠ '\n' := Lexeme.ne_of_isQuote hc rfl
    have hm : (Lexeme.literal (c :: (body ++ [c]))).masked.tail ++ mask rest =
        body.map blankOut ++ c :: mask rest := by
      simp [masked_literal]
    rw [hm, unclosed_blank hq, unclosed_cons hcq hcb]
    by_cases hk : '\n' ∈ body ∧ quote ≠ '`'
    · exact Or.inl hk
    · rw [hcs] at h
      refine Or.inr (Or.inr (hr (h.past hb hcq hcb body fun hne hmem => hk ⟨?_, hne⟩)))
      simpa [hcn.symm] using hmem

/-- A masked lexeme starts with its first character or with the blank for it. -/
theorem Starts.masked {c : Char} {cs rest : List Char} {l : Lexeme} (h : Starts c cs l rest) :
    ∃ m, (m = c ∨ m = blankOut c) ∧ l.masked = m :: l.masked.tail := by
  cases h with
  | plain => exact ⟨c, Or.inl rfl, rfl⟩
  | lineComment => exact ⟨blankOut c, Or.inr rfl, rfl⟩
  | blockComment => exact ⟨blankOut c, Or.inr rfl, rfl⟩
  | literal => exact ⟨c, Or.inl rfl, rfl⟩

/-- What nothing closes in a text, nothing closes in the masked text. -/
theorem Unclosed.mask (hq : Lexeme.isQuote quote = true) {cs : List Char}
    (h : Unclosed quote cs) : Unclosed quote (Source.mask cs) := by
  have hb := Lexeme.ne_backslash_of_isQuote hq
  -- An escape takes the first character of the lexeme after it, so what is left to search can
  -- begin inside that lexeme: hence the induction on the length.
  induction hn : cs.length using Nat.strong_induction_on generalizing cs with
  | _ n ih =>
  subst hn
  rcases cs with _ | ⟨c, cs⟩
  · rwa [mask_nil]
  have hcq : c ≠ quote := fun hc => not_unclosed_quote cs (hc ▸ h)
  by_cases hcb : c = '\\'
  · subst hcb
    have hp : Source.mask ('\\' :: cs) = '\\' :: Source.mask cs := by
      rw [mask_cons]
      rfl
    rw [hp]
    rcases cs with _ | ⟨d, ds⟩
    · rwa [mask_nil]
    have hlen := Lexeme.length_next d ds
    obtain ⟨m, hm, hl⟩ := (starts_next d ds).masked
    rw [mask_cons, hl, List.cons_append, unclosed_escape hb]
    rcases (unclosed_escape hb d ds).mp h with ⟨rfl, hk⟩ | h
    · exact Or.inl ⟨hm.elim id id, hk⟩
    · refine Or.inr (h.inside hq (starts_next d ds) fun hr => ih _ ?_ hr rfl)
      simp only [List.length_cons]
      omega
  · have hlen := Lexeme.length_next c cs
    obtain ⟨m, hm, hl⟩ := (starts_next c cs).masked
    have hmq : m ≠ quote := by
      rcases hm with rfl | rfl
      · exact hcq
      · exact blankOut_ne_of_isQuote hq c
    have hmb : m ≠ '\\' := by
      rcases hm with rfl | rfl
      · exact hcb
      · exact blankOut_ne_backslash c
    rw [mask_cons, hl, List.cons_append, unclosed_cons hmq hmb]
    rcases (unclosed_cons hcq hcb cs).mp h with ⟨rfl, hk⟩ | h
    · exact Or.inl ⟨hm.elim id id, hk⟩
    · refine Or.inr (h.inside hq (starts_next c cs) fun hr => ih _ ?_ hr rfl)
      simp only [List.length_cons]
      omega

/-- A character of the masked text is that of the text or a space. -/
def Masks (c m : Char) : Prop := m = c ∨ m = ' '

theorem forall₂_mapIdx {f : ℕ → Char → Char} (hf : ∀ i c, Masks c (f i c)) (text : List Char) :
    List.Forall₂ Masks text (text.mapIdx f) := by
  induction text generalizing f with
  | nil => exact .nil
  | cons c cs ih =>
    rw [List.mapIdx_cons]
    exact .cons (hf 0 c) (ih fun i => hf (i + 1))

theorem forall₂_mask (code : List Char) : List.Forall₂ Masks code (mask code) := by
  rw [mask_eq]
  apply forall₂_mapIdx
  intro i c
  unfold shown
  split_ifs
  · exact Or.inr rfl
  · exact Or.inl rfl

/-- Masking makes no end of a block comment. -/
theorem blockBody?_eq_none_of_masks {text masked : List Char}
    (hm : List.Forall₂ Masks text masked) (h : Lexeme.blockBody? text = none) :
    Lexeme.blockBody? masked = none := by
  induction hm with
  | nil => exact h
  | @cons c m cs ms hcm hms ih =>
    obtain ⟨hend, hcs⟩ := Lexeme.blockBody?_cons_eq_none_iff.mp h
    refine Lexeme.blockBody?_cons_eq_none_iff.mpr ⟨?_, ih hcs⟩
    rintro ⟨rfl, hslash⟩
    cases hms with
    | nil => exact absurd hslash.symm (Option.some_ne_none _)
    | cons hd _ =>
      obtain rfl := Option.some.inj hslash
      exact hend ⟨(hcm.resolve_right (by decide)).symm,
        congrArg some (hd.resolve_right (by decide)).symm⟩

/-- A plain character is plain before the masked text as well. -/
theorem next_mask_of_plain {c : Char} {cs : List Char} (h : (Lexeme.next c cs).1 = .plain c) :
    Lexeme.next c (mask cs) = (.plain c, mask cs) := by
  by_cases hc : c = '/'
  · subst hc
    rcases cs with _ | ⟨d, ds⟩
    · rw [mask_nil]
      rfl
    have hm := forall₂_mask (d :: ds)
    generalize mask (d :: ds) = masked at hm ⊢
    cases hm with
    | cons hd hds =>
      apply Lexeme.next_slash
      · rintro rfl
        obtain rfl : '/' = d := hd.resolve_right (by decide)
        exact absurd h (by simp [Lexeme.next])
      · rintro rfl
        obtain rfl : '*' = d := hd.resolve_right (by decide)
        apply blockBody?_eq_none_of_masks hds
        cases hb : Lexeme.blockBody? ds with
        | none => rfl
        | some r => exact absurd h (by simp [Lexeme.next, hb])
  · by_cases hq : Lexeme.isQuote c = true
    · have hu : Unclosed c cs := by
        unfold Unclosed
        cases hb : Lexeme.quotedBody? c cs with
        | none => rfl
        | some r => exact absurd h (by simp [Lexeme.next, hc, hq, hb])
      have hu' : Lexeme.quotedBody? c (mask cs) = none := hu.mask hq
      simp only [Lexeme.next, if_neg hc, if_pos hq, hu']
    · simp only [Lexeme.next, if_neg hc, if_neg hq]

/-- What a lexeme is read as once it is masked: a comment is no token any more. -/
def Lexeme.remasked : Lexeme → List Lexeme
  | .plain c => [.plain c]
  | .lineComment t | .blockComment t => t.map fun c => .plain (blankOut c)
  | .literal t => [.literal (blankInside t)]

theorem next_blankOut (c : Char) (cs : List Char) :
    Lexeme.next (blankOut c) cs = (.plain (blankOut c), cs) := by
  rcases blankOut_eq c with h | h <;> rw [h] <;> rfl

theorem lexemes_blank (blank text : List Char) :
    lexemes (blank.map blankOut ++ text) =
      (blank.map fun c => Lexeme.plain (blankOut c)) ++ lexemes text := by
  induction blank with
  | nil => rfl
  | cons c cs ih => simp [lexemes_cons, next_blankOut, ih]

theorem not_escapes_blank (blank : List Char) : ¬ Escapes (blank.map blankOut) := by
  induction blank with
  | nil => exact not_escapes_nil
  | cons c cs ih => rwa [List.map_cons, escapes_cons (blankOut_ne_backslash c)]

theorem quotedBody_blank (hq : Lexeme.isQuote quote = true) {body : List Char}
    (h : QuotedBody quote body) : QuotedBody quote (body.map blankOut) where
  unescaped := not_escapes_blank body
  escaped a b hab := by
    have hm : quote ∈ body.map blankOut := by
      rw [hab]
      simp
    obtain ⟨c, -, hc⟩ := List.mem_map.mp hm
    exact absurd hc (blankOut_ne_of_isQuote hq c)
  oneLine hk hm := by
    obtain ⟨c, hc, hn⟩ := List.mem_map.mp hm
    rw [blankOut_eq_newline_iff] at hn
    exact h.oneLine hk (hn ▸ hc)

theorem lexemes_literal (hq : Lexeme.isQuote quote = true) {body : List Char}
    (h : QuotedBody quote body) (text : List Char) :
    lexemes (quote :: (body ++ [quote]) ++ text) =
      .literal (quote :: (body ++ [quote])) :: lexemes text := by
  have hs : quote ≠ '/' := Lexeme.ne_of_isQuote hq rfl
  have hr : Lexeme.quotedBody? quote (body ++ [quote] ++ text) = some (body ++ [quote], text) :=
    (Lexeme.quotedBody?_eq_some_iff (Lexeme.ne_backslash_of_isQuote hq)).mpr ⟨body, rfl, rfl, h⟩
  rw [List.cons_append, lexemes_cons]
  simp only [Lexeme.next, if_neg hs, if_pos hq, hr]

theorem lexemes_mask (code : List Char) :
    lexemes (mask code) = (lexemes code).flatMap Lexeme.remasked := by
  fun_induction lexemes code with
  | case1 => simp
  | case2 c cs ih =>
    have hs := starts_next c cs
    rw [mask_cons, List.flatMap_cons, ← ih]
    generalize hr : (Lexeme.next c cs).2 = rest at hs ⊢
    generalize hl : (Lexeme.next c cs).1 = l at hs ⊢
    cases hs with
    | plain =>
      change lexemes (c :: mask cs) = .plain c :: lexemes (mask cs)
      rw [lexemes_cons, next_mask_of_plain hl]
    | lineComment => exact lexemes_blank _ _
    | blockComment => exact lexemes_blank _ _
    | @literal body _ hc hcs hbody =>
      have hrm : (Lexeme.literal (c :: (body ++ [c]))).remasked =
          [.literal (c :: (body.map blankOut ++ [c]))] := by
        simp [Lexeme.remasked, blankInside]
      rw [masked_literal, hrm, lexemes_literal hc (quotedBody_blank hc hbody)]
      rfl

theorem blankInside_blankInside (text : List Char) :
    blankInside (blankInside text) = blankInside text := by
  rcases text with _ | ⟨c, cs⟩
  · rfl
  rcases List.eq_nil_or_concat cs with rfl | ⟨inside, d, rfl⟩
  · rfl
  · simp [blankInside, blankOut_blankOut]

theorem flatMap_masked_blank (blank : List Char) :
    (blank.map fun c => Lexeme.plain (blankOut c)).flatMap Lexeme.masked =
      blank.map blankOut := by
  rw [List.flatMap_map]
  exact List.map_eq_flatMap.symm

theorem Lexeme.flatMap_masked_remasked (l : Lexeme) :
    l.remasked.flatMap Lexeme.masked = l.masked := by
  cases l with
  | plain c => rfl
  | lineComment t => exact flatMap_masked_blank t
  | blockComment t => exact flatMap_masked_blank t
  | literal t => simp [remasked, masked, blankInside_blankInside]

theorem mask_mask (code : List Char) : mask (mask code) = mask code := by
  calc mask (mask code) = (lexemes (mask code)).flatMap Lexeme.masked := rfl
    _ = (lexemes code).flatMap fun l => l.remasked.flatMap Lexeme.masked := by
        rw [lexemes_mask, List.flatMap_assoc]
    _ = mask code := by
        simp only [Lexeme.flatMap_masked_remasked]
        rfl

/-- Masking is done once and for all, so what a pass finds in the masked text is what it finds
in the text, where masking is all that it does with the text itself. -/
theorem mask_idempotent (code : List Char) :
    mask (mask code) = mask code ∧
      (∀ table, Spelling.typos table (mask code) = Spelling.typos table code) ∧
      Semicolon.missingInScript (mask code) = Semicolon.missingInScript code ∧
      Semicolon.missingInBlock (mask code) = Semicolon.missingInBlock code ∧
      UndefinedName.find (mask code) = UndefinedName.find code ∧
      ∀ declarationsFirst prototypes,
        CDialect.violations (mask code) declarationsFirst prototypes =
          CDialect.violations code declarationsFirst prototypes := by
  have h := mask_mask code
  refine ⟨h, ?_, ?_, ?_, ?_, ?_⟩
  · intro table
    unfold Spelling.typos
    rw [h]
  · unfold Semicolon.missingInScript
    rw [h]
  · unfold Semicolon.missingInBlock
    rw [h]
  · unfold UndefinedName.find
    rw [h]
  · intro declarationsFirst prototypes
    unfold CDialect.violations
    rw [h]

end SnippetLint.Source
