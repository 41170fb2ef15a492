import Mathlib.Data.List.Infix
import SnippetLint.Diagnostic

/-! Diagnostics that come one after another and are appended unless the start of their message
stands in an earlier one. How long that start is may change from one to the next. -/
namespace SnippetLint.Diagnostic
open Text

/-- The start of the message that counts. -/
def opening (len : ℕ) (message : String) : List Char := message.toList.take len

theorem repeated_iff {len : ℕ} {message : String} {ds : List Diagnostic} :
    repeated len message ds = true ↔ ∃ d ∈ ds, opening len message <:+: d.message.toList := by
  simp only [repeated, List.any_eq_true, hasPiece_iff, opening]

theorem opening_prefix_opening (message : String) {j k : ℕ} (h : j ≤ k) :
    opening j message <+: opening k message :=
  List.take_prefix_take_left h

/-- A shorter start is found wherever a longer one is. -/
theorem repeated_of_le {j k : ℕ} (h : j ≤ k) {message : String} {ds : List Diagnostic}
    (hr : repeated k message ds = true) : repeated j message ds = true := by
  obtain ⟨d, hd, hi⟩ := repeated_iff.mp hr
  exact repeated_iff.mpr ⟨d, hd, (opening_prefix_opening message h).isInfix.trans hi⟩

/-- A diagnostic to append, and how many characters of its message count. -/
structure Candidate where
  length : ℕ
  diagnostic : Diagnostic

/-- The start of the candidate's message stands in the other message. -/
def Candidate.Repeats (c : Candidate) (d : Diagnostic) : Prop :=
  opening c.length c.diagnostic.message <:+: d.message.toList

/-- The list after all the candidates, from the first to the last. -/
def pushAll (ds : List Diagnostic) (cs : List Candidate) : List Diagnostic :=
  cs.foldl (fun es c => pushNew c.length es c.diagnostic) ds

/-- The candidates that are appended on the way. -/
def kept (ds : List Diagnostic) : List Candidate → List Candidate
  | [] => []
  | c :: cs =>
    if repeated c.length c.diagnostic.message ds then kept ds cs
    else c :: kept (ds ++ [c.diagnostic]) cs

theorem pushNew_eq_self_iff {len : ℕ} {ds : List Diagnostic} {d : Diagnostic} :
    pushNew len ds d = ds ↔ repeated len d.message ds = true := by
  unfold pushNew
  split_ifs with h
  · exact iff_of_true rfl h
  · exact iff_of_false (fun he => by simpa using congrArg List.length he) h

theorem pushAll_append (ds : List Diagnostic) (cs es : List Candidate) :
    pushAll ds (cs ++ es) = pushAll (pushAll ds cs) es :=
  List.foldl_append

theorem pushAll_eq (ds : List Diagnostic) (cs : List Candidate) :
    pushAll ds cs = ds ++ (kept ds cs).map Candidate.diagnostic := by
  induction cs generalizing ds with
  | nil => simp [pushAll, kept]
  | cons c cs ih =>
    have hstep : pushAll ds (c :: cs) = pushAll (pushNew c.length ds c.diagnostic) cs := rfl
    rw [hstep, ih, kept, pushNew]
    split_ifs with h
    · rfl
    · rw [List.map_cons, List.append_assoc, List.singleton_append]

theorem prefix_pushAll (ds : List Diagnostic) (cs : List Candidate) : ds <+: pushAll ds cs := by
  rw [pushAll_eq]
  exact List.prefix_append _ _

theorem kept_sublist (ds : List Diagnostic) (cs : List Candidate) :
    (kept ds cs).Sublist cs := by
  induction cs generalizing ds with
  | nil => exact .slnil
  | cons c cs ih =>
    unfold kept
    split_ifs with h
    · exact (ih ds).cons c
    · exact (ih _).cons_cons c

theorem not_repeats_of_mem_kept {ds : List Diagnostic} {cs : List Candidate} {c : Candidate}
    (hc : c ∈ kept ds cs) {d : Diagnostic} (hd : d ∈ ds) : ¬ c.Repeats d := by
  induction cs generalizing ds with
  | nil => exact absurd hc List.not_mem_nil
  | cons e cs ih =>
    unfold kept at hc
    split_ifs at hc with h
    · exact ih hc hd
    · rcases List.mem_cons.mp hc with rfl | hc
      · exact fun hr => h (repeated_iff.mpr ⟨d, hd, hr⟩)
      · exact ih hc (List.mem_append_left _ hd)

theorem pairwise_kept (ds : List Diagnostic) (cs : List Candidate) :
    (kept ds cs).Pairwise fun a b => ¬ b.Repeats a.diagnostic := by
  induction cs generalizing ds with
  | nil => exact .nil
  | cons c cs ih =>
    unfold kept
    split_ifs with h
    · exact ih ds
    · refine .cons (fun b hb => ?_) (ih _)
      exact not_repeats_of_mem_kept hb (List.mem_append_right _ List.mem_cons_self)

/-- Candidates of which none repeats what comes before it are all appended. -/
theorem kept_eq_self {ds : List Diagnostic} {cs : List Candidate}
    (hds : ∀ c ∈ cs, ∀ d ∈ ds, ¬ c.Repeats d)
    (hcs : cs.Pairwise fun a b => ¬ b.Repeats a.diagnostic) : kept ds cs = cs := by
  induction hcs generalizing ds with
  | nil => rfl
  | @cons c cs hc _ ih =>
    have hnew : ¬ repeated c.length c.diagnostic.message ds = true := by
      rw [repeated_iff]
      rintro ⟨d, hd, hr⟩
      exact hds c List.mem_cons_self d hd hr
    unfold kept
    rw [if_neg hnew, ih]
    intro b hb d hd
    rcases List.mem_append.mp hd with hd | hd
    · exact hds b (List.mem_cons_of_mem c hb) d hd
    · rw [List.mem_singleton.mp hd]
      exact hc b hb

theorem kept_kept (cs : List Candidate) : kept [] (kept [] cs) = kept [] cs :=
  kept_eq_self (fun _ _ _ hd => absurd hd List.not_mem_nil) (pairwise_kept [] cs)

theorem pushAll_kept (cs : List Candidate) : pushAll [] (kept [] cs) = pushAll [] cs := by
  rw [pushAll_eq, pushAll_eq, kept_kept]

/-- Whatever the length of the start, no message repeats another as a whole. -/
theorem nodup_messages_pushAll (cs : List Candidate) :
    ((pushAll [] cs).map message).Nodup := by
  rw [pushAll_eq, List.nil_append, List.map_map, List.Nodup, List.pairwise_map]
  refine (pairwise_kept [] cs).imp ?_
  intro a b h he
  apply h
  have hm : a.diagnostic.message = b.diagnostic.message := he
  rw [Candidate.Repeats, hm]
  exact (List.take_prefix _ _).isInfix

/-- What a dropped candidate repeats is still there in the end. -/
theorem exists_repeats_of_dropped {cs : List Candidate} {c : Candidate}
    (h : pushAll [] (cs ++ [c]) = pushAll [] cs) (es : List Candidate) :
    ∃ d ∈ pushAll [] (cs ++ c :: es), c.Repeats d := by
  have hstep : pushAll [] (cs ++ [c]) = pushNew c.length (pushAll [] cs) c.diagnostic :=
    pushAll_append [] cs [c]
  obtain ⟨d, hd, hr⟩ := repeated_iff.mp (pushNew_eq_self_iff.mp (hstep.symm.trans h))
  refine ⟨d, ?_, hr⟩
  rw [pushAll_append]
  exact (prefix_pushAll _ _).subset hd

end SnippetLint.Diagnostic
