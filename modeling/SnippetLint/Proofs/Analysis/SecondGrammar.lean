import SnippetLint.Proofs.Analysis.Pipeline
import SnippetLint.Proofs.Diagnostic.Repetition

/-! What the second grammar adds to the errors of a script. Its only error is heard unless its
message starts like something that the first grammar said; the position that stands at the end of
that message can come into the start, and then the same error is heard twice. -/
namespace SnippetLint.Analysis
open Diagnostic ScriptError

/-- What counts of the message is said before: it ends before the position begins, or a message that
is longer than the error's own has all of it. -/
def SaidBefore (len : ℕ) (ds : List Diagnostic) (d : Diagnostic) : Prop :=
  len ≤ d.message.length ∨
    ∃ e ∈ ds, d.message.length < e.message.length ∧
      opening len (located d).message <:+: e.message.toList

theorem opening_located (d : Diagnostic) {len : ℕ} (h : len ≤ d.message.length) :
    opening len (located d).message = opening len d.message := by
  have hlen : len ≤ d.message.toList.length := by rwa [String.length_toList]
  simp only [opening, located, String.toList_append, List.append_assoc]
  exact List.take_append_of_le_length hlen

theorem length_opening_located (d : Diagnostic) {len : ℕ} (h : d.message.length < len) :
    d.message.length < (opening len (located d).message).length := by
  simp only [opening, located, String.toList_append, List.length_take, List.length_append,
    String.length_toList]
  have hs : 0 < " (".length := by decide
  omega

/-- Of an error with the same message only the part before the position is a repetition. -/
theorem repeated_located_iff {len : ℕ} {ds : List Diagnostic} {d e : Diagnostic} (he : e ∈ ds)
    (hm : e.message = d.message) :
    repeated len (located d).message ds = true ↔ SaidBefore len ds d := by
  rw [repeated_iff]
  constructor
  · rintro ⟨f, hf, hi⟩
    by_cases hlen : len ≤ d.message.length
    · exact Or.inl hlen
    · have hlong := length_opening_located d (Nat.lt_of_not_le hlen)
      have hle := hi.length_le
      rw [String.length_toList] at hle
      exact Or.inr ⟨f, hf, by omega, hi⟩
  · rintro (hlen | ⟨f, hf, -, hi⟩)
    · refine ⟨e, he, ?_⟩
      rw [opening_located d hlen, hm]
      exact (List.take_prefix _ _).isInfix
    · exact ⟨f, hf, hi⟩

theorem diagnostics_javascript_of_strict {parse : Parser} {code : String} {d : Diagnostic}
    (h : strict? parse code = some d) (settings : Settings) (title : String) :
    (javascript parse settings code title).diagnostics =
      pushNew settings.dedupLength (tolerant parse code).1 d ++
        scriptDiagnostics settings.checks code.toList := by
  rw [diagnostics_javascript, parserDiagnostics, h]
  rfl

/-- An error of the second grammar that the first one has too adds nothing exactly as long as what
counts of its message is said before. Otherwise it is heard after the others. -/
theorem same_error_silent_iff_said_before :
    (∀ (len : ℕ) (ds : List Diagnostic) (d e : Diagnostic), e ∈ ds → e.message = d.message →
      (pushNew len ds (located d) = ds ↔ SaidBefore len ds d)) ∧
    ∀ (parse : Parser) (settings : Settings) (code title : String) (d e : Diagnostic),
      strict? parse code = some (located d) → e ∈ (tolerant parse code).1 →
      e.message = d.message →
      ((javascript parse settings code title).diagnostics =
          (tolerant parse code).1 ++ scriptDiagnostics settings.checks code.toList ↔
        SaidBefore settings.dedupLength (tolerant parse code).1 d) ∧
      (¬ SaidBefore settings.dedupLength (tolerant parse code).1 d →
        (javascript parse settings code title).diagnostics =
        (tolerant parse code).1 ++ located d :: scriptDiagnostics settings.checks code.toList) := by
  have hlists : ∀ (len : ℕ) (ds : List Diagnostic) (d e : Diagnostic), e ∈ ds →
      e.message = d.message → (pushNew len ds (located d) = ds ↔ SaidBefore len ds d) := by
    intro len ds d e he hm
    rw [pushNew_eq_self_iff, repeated_located_iff he hm]
  refine ⟨hlists, fun parse settings code title d e hs he hm => ?_⟩
  have hsaid := hlists settings.dedupLength (tolerant parse code).1 d e he hm
  rw [diagnostics_javascript_of_strict hs, List.append_left_inj]
  refine ⟨hsaid, fun hn => ?_⟩
  have hnew : ¬ repeated settings.dedupLength (located d).message (tolerant parse code).1 = true :=
    fun hr => hn ((repeated_located_iff he hm).mp hr)
  rw [pushNew, if_neg hnew, List.append_assoc, List.singleton_append]

theorem pushNew_sublist_of_le {j k : ℕ} (h : j ≤ k) (ds : List Diagnostic) (d : Diagnostic) :
    (pushNew j ds d).Sublist (pushNew k ds d) := by
  unfold pushNew
  split_ifs with hj hk hk
  · exact List.Sublist.refl _
  · exact List.sublist_append_left _ _
  · exact absurd (repeated_of_le h hk) hj
  · exact List.Sublist.refl _

theorem parserDiagnostics_sublist_of_le (parse : Parser) {j k : ℕ} (h : j ≤ k) (code : String) :
    (parserDiagnostics parse j code).Sublist (parserDiagnostics parse k code) := by
  unfold parserDiagnostics
  cases strict? parse code with
  | none => exact List.Sublist.refl _
  | some d => exact pushNew_sublist_of_le h _ d

/-- The longer the start that counts, the more is heard. Only scripts are read by two grammars. -/
theorem diagnostics_analyze_sublist_of_le (parse : Parser) (settings : Settings) (s : Snippet)
    {j k : ℕ} (h : j ≤ k) :
    (s.analyze parse { settings with dedupLength := j }).diagnostics.Sublist
      (s.analyze parse { settings with dedupLength := k }).diagnostics := by
  unfold Snippet.analyze
  cases s.language with
  | javascript =>
    simp only [byLanguage, diagnostics_javascript]
    exact (parserDiagnostics_sublist_of_le parse h s.code).append_right _
  | typescript => exact List.Sublist.refl _
  | cpp => exact List.Sublist.refl _
  | c => exact List.Sublist.refl _

/-- The list of what was appended only grows at its end, and no message in it has the start that
counted for a later one. What is dropped stands there in the end, and those that were appended
would all be appended again. What is dropped at some length is dropped at any smaller one, so that
an analysis with a smaller length says nothing that is not said with a larger one. -/
theorem pushAll_keeps_what_is_new :
    (∀ cs es, pushAll [] cs <+: pushAll [] (cs ++ es)) ∧
    (∀ cs, pushAll [] cs = (kept [] cs).map Candidate.diagnostic ∧ (kept [] cs).Sublist cs ∧
      (kept [] cs).Pairwise (fun a b => ¬ b.Repeats a.diagnostic) ∧
      ((pushAll [] cs).map message).Nodup) ∧
    (∀ cs c es, pushAll [] (cs ++ [c]) = pushAll [] cs →
      ∃ d ∈ pushAll [] (cs ++ c :: es), c.Repeats d) ∧
    (∀ cs, kept [] (kept [] cs) = kept [] cs ∧ pushAll [] (kept [] cs) = pushAll [] cs) ∧
    (∀ (ds : List Diagnostic) (d : Diagnostic) (j k : ℕ), j ≤ k →
      pushNew k ds d = ds → pushNew j ds d = ds) ∧
    ∀ (parse : Parser) (settings : Settings) (s : Snippet) (j k : ℕ), j ≤ k →
      (s.analyze parse { settings with dedupLength := j }).diagnostics.Sublist
        (s.analyze parse { settings with dedupLength := k }).diagnostics := by
  refine ⟨?_, fun cs => ⟨pushAll_eq [] cs, kept_sublist [] cs, pairwise_kept [] cs,
    nodup_messages_pushAll cs⟩, fun cs c es h => exists_repeats_of_dropped h es,
    fun cs => ⟨kept_kept cs, pushAll_kept cs⟩, ?_,
    fun parse settings s j k h => diagnostics_analyze_sublist_of_le parse settings s h⟩
  · intro cs es
    rw [pushAll_append]
    exact prefix_pushAll _ es
  · intro ds d j k h hk
    rw [pushNew_eq_self_iff] at hk ⊢
    exact repeated_of_le h hk

namespace Sample

/-- Lacks its last brace. -/
def unclosedTry : ParseTree :=
  .node ⟨"program", 0, 5, true, false, false, true, none⟩ [
    .node ⟨"try_statement", 0, 5, true, false, false, true, none⟩ [
      .node ⟨"try", 0, 3, false, false, false, false, none⟩ [],
      .node ⟨"statement_block", 4, 5, true, false, false, true, some "body"⟩ [
        .node ⟨"\x7b", 4, 5, false, false, false, false, none⟩ [],
        .node ⟨"\x7d", 5, 5, false, false, true, true, none⟩ []]]]

/-- Both grammars read the text in the same way. -/
def readsTry : Parser := fun _ _ => some unclosedTry

/-- What both of them miss. -/
def missingBrace : Diagnostic := .error ⟨1, 6⟩ "Missing `\x7d`"

/-- As many characters count as the message has without the position. -/
def brief : Settings := { Settings.standard with dedupLength := 11 }

theorem strict?_readsTry : strict? readsTry "try \x7b" = some (located missingBrace) := by
  decide +kernel

theorem missingBrace_mem_tolerant : missingBrace ∈ (tolerant readsTry "try \x7b").1 := by
  decide +kernel

/-- The second grammar is not heard as long as the position does not count. -/
theorem silent_unclosedTry :
    strict? readsTry "try \x7b" = some (located missingBrace) ∧
    missingBrace ∈ (tolerant readsTry "try \x7b").1 ∧
    SaidBefore brief.dedupLength (tolerant readsTry "try \x7b").1 missingBrace ∧
    (javascript readsTry brief "try \x7b" "").diagnostics =
      (tolerant readsTry "try \x7b").1 ++ scriptDiagnostics .all "try \x7b".toList := by
  have hsaid : SaidBefore brief.dedupLength (tolerant readsTry "try \x7b").1 missingBrace :=
    Or.inl (by decide +kernel)
  refine ⟨strict?_readsTry, missingBrace_mem_tolerant, hsaid, ?_⟩
  exact ((same_error_silent_iff_said_before.2 readsTry brief "try \x7b" "" _ _ strict?_readsTry
    missingBrace_mem_tolerant rfl).1).mpr hsaid

/-- With the usual length the position counts, and the one missing brace is an error twice. -/
theorem not_silent_of_same_error : ¬ ∀ (parse : Parser) (settings : Settings)
    (code title : String) (d e : Diagnostic), 1 ≤ settings.dedupLength →
    strict? parse code = some (located d) → e ∈ (tolerant parse code).1 →
    e.message = d.message → e.position = d.position →
    (javascript parse settings code title).diagnostics =
      (tolerant parse code).1 ++ scriptDiagnostics settings.checks code.toList := by
  intro h
  have htry := h readsTry .standard "try \x7b" "" _ _ (by decide) strict?_readsTry
    missingBrace_mem_tolerant rfl rfl
  exact absurd htry (by decide +kernel)

def unexpectedEnd : Candidate := ⟨20, .error ⟨1, 1⟩ "Unexpected end of input"⟩

def unexpectedEndAgain : Candidate := ⟨20, .error ⟨1, 5⟩ "Unexpected end of input (1:5)"⟩

def missingBraceAfter : Candidate := ⟨20, .error ⟨1, 5⟩ "Missing `\x7d` (1:5)"⟩

/-- The second of the three is dropped, and what it repeats stays. -/
theorem pushAll_unexpectedEnd :
    pushAll [] ([unexpectedEnd] ++ [unexpectedEndAgain]) = pushAll [] [unexpectedEnd] ∧
    (∃ d ∈ pushAll [] ([unexpectedEnd] ++ unexpectedEndAgain :: [missingBraceAfter]),
      unexpectedEndAgain.Repeats d) ∧
    11 ≤ 20 ∧
    ((Snippet.mk "try \x7b" .javascript "").analyze readsTry
        { Settings.standard with dedupLength := 11 }).diagnostics.Sublist
      ((Snippet.mk "try \x7b" .javascript "").analyze readsTry
        { Settings.standard with dedupLength := 20 }).diagnostics := by
  have hdropped : pushAll [] ([unexpectedEnd] ++ [unexpectedEndAgain]) =
      pushAll [] [unexpectedEnd] := by decide +kernel
  exact ⟨hdropped, pushAll_keeps_what_is_new.2.2.1 _ _ _ hdropped, by decide,
    pushAll_keeps_what_is_new.2.2.2.2.2 readsTry .standard _ 11 20 (by decide)⟩

end Sample
end SnippetLint.Analysis
