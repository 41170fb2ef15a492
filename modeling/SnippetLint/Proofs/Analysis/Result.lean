import Mathlib.Data.List.Forall2
import SnippetLint.Proofs.Analysis.Validity
import SnippetLint.Proofs.Text.Offsets
import SnippetLint.Proofs.Text.RealPosition

/-! What a result makes of the diagnostics that it is given. They may point anywhere; in the result
each is at the nearest position of the code, and nothing else of them has changed. -/
namespace SnippetLint

/-- The same diagnostic at the nearest position of the text, which is its own if the text has it. -/
structure Diagnostic.MovedTo (text : List Char) (d e : Diagnostic) : Prop where
  message_eq : e.message = d.message
  severity_eq : e.severity = d.severity
  isNearest : e.position.IsNearest d.position text
  eq_iff : e = d ↔ d.position.IsReal text

namespace Result

theorem errorCount_eq_zero_iff (r : Result) : r.errorCount = 0 ↔ r.isValid = true := by
  unfold errorCount isValid
  rw [List.countP_eq_zero]
  simp

variable (language : Language) (code title : String) (ds : List Diagnostic) (tree : SyntaxTree)

theorem movedTo_make :
    List.Forall₂ (Diagnostic.MovedTo code.toList) ds
      (make language code title ds tree).diagnostics := by
  rw [make, List.forall₂_map_right_iff, List.forall₂_same]
  intro d _
  refine ⟨rfl, rfl, Position.isNearest_iff.mpr rfl, ?_⟩
  rw [← Position.clamp_eq_self_iff]
  exact ⟨congrArg Diagnostic.position, fun h => congrArg (Diagnostic.mk · d.message d.severity) h⟩

theorem noErrors_make : NoErrors (make language code title ds tree).diagnostics ↔ NoErrors ds := by
  unfold NoErrors make
  simp only [List.forall_mem_map]

/-- Diagnostics of a result for the same code are where they belong already. -/
theorem make_diagnostics_make (language' : Language) (title' : String) (tree' : SyntaxTree) :
    (make language' code title' (make language code title ds tree).diagnostics tree').diagnostics =
      (make language code title ds tree).diagnostics :=
  Analysis.diagnostics_make (Analysis.allReal_make language code title ds tree)

/-- Each diagnostic is at its place in the list and at the nearest position of the code, and all
else is what the result is made from. It is invalid if it is given an error, which is when it counts
one. Made again from its own diagnostics and tree it is the same, but for a new language or
title. -/
theorem make_moves_to_nearest :
    List.Forall₂ (Diagnostic.MovedTo code.toList) ds
      (make language code title ds tree).diagnostics ∧
    let r := make language code title ds tree
    (r.language = language ∧ r.code = code ∧ r.title = title ∧ r.tree = tree) ∧
    (r.isValid = true ↔ NoErrors ds) ∧
    (r.errorCount = 0 ↔ r.isValid = true) ∧
    ∀ language' title', make language' code title' r.diagnostics r.tree =
      { r with language := language', title := title' } := by
  refine ⟨movedTo_make language code title ds tree, ?_⟩
  intro r
  refine ⟨⟨rfl, rfl, rfl, rfl⟩, ?_, r.errorCount_eq_zero_iff, fun language' title' => ?_⟩
  · rw [isValid_iff, noErrors_make]
  · have hds : (make language' code title' r.diagnostics r.tree).diagnostics = r.diagnostics :=
      make_diagnostics_make language code title ds tree language' title' r.tree
    exact congrArg (Result.mk language' code title' · tree) hds

end Result
end SnippetLint
