import Mathlib.Algebra.BigOperators.Group.List.Basic
import Mathlib.Algebra.Order.BigOperators.Group.List
import Mathlib.Algebra.Order.Group.Nat
import Mathlib.Data.List.Count
import SnippetLint.Analysis.Result
import SnippetLint.Proofs.Analysis.Result

/-! The summary of a batch and its exit code. They are counted apart and say the same of a batch.
Of two batches together they say what follows from each, and the order of the results does not
matter. -/
namespace SnippetLint

namespace Summary

instance : Add Summary where
  add s t := ⟨s.snippets + t.snippets, s.valid + t.valid, s.errors + t.errors,
    s.warnings + t.warnings⟩

theorem add_eq (s t : Summary) : s + t = ⟨s.snippets + t.snippets, s.valid + t.valid,
    s.errors + t.errors, s.warnings + t.warnings⟩ := rfl

/-- Each number counted by itself. -/
def counts (rs : List Result) : Summary where
  snippets := rs.length
  valid := rs.countP Result.isValid
  errors := (rs.map Result.errorCount).sum
  warnings := (rs.map Result.warningCount).sum

theorem add_add_counts (s : Summary) (r : Result) (rs : List Result) :
    s.add r + counts rs = s + counts (r :: rs) := by
  have hvalid : (r :: rs).countP Result.isValid = r.isValid.toNat + rs.countP Result.isValid := by
    rw [List.countP_cons, Nat.add_comm]
    cases r.isValid <;> rfl
  simp only [add_eq, add, counts, hvalid, List.length_cons, List.map_cons, List.sum_cons,
    Nat.add_assoc, Nat.add_comm 1]

theorem foldl_add (s : Summary) (rs : List Result) : rs.foldl add s = s + counts rs := by
  induction rs generalizing s with
  | nil => rfl
  | cons r rs ih => rw [List.foldl_cons, ih, add_add_counts]

theorem ofResults_eq (rs : List Result) : ofResults rs = counts rs := by
  rw [ofResults, foldl_add, add_eq]
  simp only [zero, Nat.zero_add]

theorem ofResults_append (rs ss : List Result) :
    ofResults (rs ++ ss) = ofResults rs + ofResults ss := by
  simp only [ofResults_eq, add_eq, counts, List.length_append, List.countP_append,
    List.map_append, List.sum_append]

theorem ofResults_of_perm {rs ss : List Result} (h : rs.Perm ss) : ofResults rs = ofResults ss := by
  rw [ofResults_eq, ofResults_eq, counts, counts, h.length_eq, h.countP_eq,
    (h.map Result.errorCount).sum_eq, (h.map Result.warningCount).sum_eq]

theorem allValid_iff (rs : List Result) :
    (ofResults rs).allValid = true ↔ ∀ r ∈ rs, r.isValid = true := by
  rw [ofResults_eq, allValid, beq_iff_eq]
  exact List.countP_eq_length

theorem errors_eq_zero_iff (rs : List Result) :
    (ofResults rs).errors = 0 ↔ ∀ r ∈ rs, r.isValid = true := by
  have hsum : (ofResults rs).errors = (rs.map Result.errorCount).sum := by rw [ofResults_eq, counts]
  rw [hsum, List.sum_eq_zero_iff, List.forall_mem_map]
  exact forall₂_congr fun r _ => r.errorCount_eq_zero_iff

theorem warnings_eq_zero_iff (rs : List Result) :
    (ofResults rs).warnings = 0 ↔ ∀ r ∈ rs, r.warningCount = 0 := by
  have hsum : (ofResults rs).warnings = (rs.map Result.warningCount).sum := by
    rw [ofResults_eq, counts]
  rw [hsum, List.sum_eq_zero_iff, List.forall_mem_map]

end Summary

/-- A batch with this result fails. -/
def Result.fails (failOnWarnings : Bool) (r : Result) : Bool :=
  !r.isValid || failOnWarnings && 0 < r.warningCount

theorem exitCode_eq (failOnWarnings : Bool) (rs : List Result) :
    exitCode failOnWarnings rs = (rs.any (Result.fails failOnWarnings)).toNat := by
  have hany : rs.any (Result.fails failOnWarnings) =
      (rs.any (!·.isValid) || failOnWarnings && rs.any (0 < ·.warningCount)) := by
    rw [Bool.eq_iff_iff]
    simp only [List.any_eq_true, Result.fails, Bool.or_eq_true, Bool.and_eq_true, and_or_left,
      exists_or, and_left_comm, exists_and_left]
  rw [exitCode, hany]
  cases rs.any (!·.isValid) || failOnWarnings && rs.any (0 < ·.warningCount) <;> rfl

theorem exitCode_eq_zero_iff (failOnWarnings : Bool) (rs : List Result) :
    exitCode failOnWarnings rs = 0 ↔ ∀ r ∈ rs, r.fails failOnWarnings = false := by
  rw [exitCode_eq, Bool.toNat_eq_zero, List.any_eq_false]
  simp only [Bool.not_eq_true]

theorem exitCode_append (failOnWarnings : Bool) (rs ss : List Result) :
    exitCode failOnWarnings (rs ++ ss) =
      max (exitCode failOnWarnings rs) (exitCode failOnWarnings ss) := by
  simp only [exitCode_eq, List.any_append]
  cases rs.any (Result.fails failOnWarnings) <;>
    cases ss.any (Result.fails failOnWarnings) <;> rfl

theorem exitCode_of_perm (failOnWarnings : Bool) {rs ss : List Result} (h : rs.Perm ss) :
    exitCode failOnWarnings rs = exitCode failOnWarnings ss := by
  rw [exitCode_eq, exitCode_eq, h.any_eq]

theorem exitCode_false_eq_zero_iff (rs : List Result) :
    exitCode false rs = 0 ↔ ∀ r ∈ rs, r.isValid = true := by
  rw [exitCode_eq_zero_iff]
  simp [Result.fails]

theorem exitCode_true_eq_zero_iff (rs : List Result) :
    exitCode true rs = 0 ↔ (∀ r ∈ rs, r.isValid = true) ∧ ∀ r ∈ rs, r.warningCount = 0 := by
  rw [exitCode_eq_zero_iff, ← forall₂_and]
  simp [Result.fails]

/-- A batch passes if all its results are valid, which is when the summary counts no error; where
warnings are to fail it must count no warning, either. Both answers for two batches together are
put together from those for each, and a batch in another order gets the same answers. -/
theorem exitCode_agrees_with_summary (rs ss : List Result) :
    (exitCode false rs = 0 ↔ (Summary.ofResults rs).allValid = true) ∧
    ((Summary.ofResults rs).allValid = true ↔ (Summary.ofResults rs).errors = 0) ∧
    (exitCode true rs = 0 ↔
      (Summary.ofResults rs).errors = 0 ∧ (Summary.ofResults rs).warnings = 0) ∧
    Summary.ofResults (rs ++ ss) = Summary.ofResults rs + Summary.ofResults ss ∧
    (∀ failOnWarnings, exitCode failOnWarnings (rs ++ ss) =
      max (exitCode failOnWarnings rs) (exitCode failOnWarnings ss)) ∧
    (rs.Perm ss → Summary.ofResults rs = Summary.ofResults ss ∧
      ∀ failOnWarnings, exitCode failOnWarnings rs = exitCode failOnWarnings ss) := by
  refine ⟨?_, ?_, ?_, Summary.ofResults_append rs ss, fun f => exitCode_append f rs ss,
    fun h => ⟨Summary.ofResults_of_perm h, fun f => exitCode_of_perm f h⟩⟩
  · rw [exitCode_false_eq_zero_iff, Summary.allValid_iff]
  · rw [Summary.allValid_iff, Summary.errors_eq_zero_iff]
  · rw [exitCode_true_eq_zero_iff, Summary.errors_eq_zero_iff, Summary.warnings_eq_zero_iff]

namespace Sample

def clean : Result := .make .c "int x;" "clean.c" [] .placeholder

/-- An error and a warning. -/
def broken : Result :=
  .make .c "class A;" "broken.c" [.error ⟨1, 1⟩ "keyword", .warning ⟨1, 9⟩ "prototype"] .placeholder

theorem exitCode_of_swapped :
    [broken, clean].Perm [clean, broken] ∧ Summary.ofResults [broken, clean] = ⟨2, 1, 1, 1⟩ ∧
      Summary.ofResults [broken, clean] = Summary.ofResults [clean, broken] ∧
      ∀ failOnWarnings,
        exitCode failOnWarnings [broken, clean] = exitCode failOnWarnings [clean, broken] :=
  have hswap : [broken, clean].Perm [clean, broken] := .swap _ _ _
  ⟨hswap, by decide +kernel, (exitCode_agrees_with_summary _ _).2.2.2.2.2 hswap⟩

end Sample
end SnippetLint
