import Mathlib.Data.List.Basic
import Mathlib.Tactic.SplitIfs
import SnippetLint.Pass.Brackets
import SnippetLint.Pass.CDialect
import SnippetLint.Pass.Semicolon
import SnippetLint.Pass.Smell
import SnippetLint.Pass.Spelling
import SnippetLint.Pass.UndefinedName

/-! Which passes give errors and which only advice. Brackets, semicolons of C and C++, and
keywords of C++ in C are errors; nothing else that a pass over a text says is one. -/
namespace SnippetLint
open Text

def NoErrors (ds : List Diagnostic) : Prop := ∀ d ∈ ds, d.severity ≠ .error

def AllErrors (ds : List Diagnostic) : Prop := ∀ d ∈ ds, d.severity = .error

theorem Diagnostic.warning_ne_error (p : Position) (message : String) :
    (warning p message).severity ≠ .error :=
  fun h => by cases h

theorem NoErrors.nil : NoErrors [] := fun _ h => absurd h List.not_mem_nil

theorem noErrors_append {ds es : List Diagnostic} :
    NoErrors (ds ++ es) ↔ NoErrors ds ∧ NoErrors es := by
  unfold NoErrors
  simp only [List.mem_append, or_imp, forall_and]

theorem AllErrors.noErrors_iff {ds : List Diagnostic} (h : AllErrors ds) :
    NoErrors ds ↔ ds = [] := by
  constructor
  · intro hn
    rw [List.eq_nil_iff_forall_not_mem]
    exact fun d hd => hn d hd (h d hd)
  · rintro rfl
    exact .nil

theorem Bracket.allErrors_scan (code : List Char) (b : Bracket) : AllErrors (scan code b) := by
  unfold scan
  generalize Position.first = p
  generalize ([] : List Position) = opens
  induction code generalizing p opens with
  | nil =>
    intro d hd
    obtain ⟨q, -, rfl⟩ := List.mem_map.mp hd
    rfl
  | cons c cs ih =>
    unfold scanFrom
    split_ifs
    · exact ih _ _
    · cases opens with
      | nil =>
        intro d hd
        rcases List.mem_cons.mp hd with rfl | hd
        · rfl
        · exact ih _ _ d hd
      | cons q outer => exact ih _ _
    · exact ih _ _

theorem Bracket.noErrors_scanAll (code : List Char) (bs : List Bracket) :
    NoErrors (scanAll code bs) ↔ ∀ b ∈ bs, scan code b = [] := by
  unfold scanAll NoErrors
  simp only [List.mem_flatMap, forall_exists_index, and_imp]
  constructor
  · intro h b hb
    exact (allErrors_scan code b).noErrors_iff.mp fun d hd => h d b hb hd
  · intro h d b hb hd
    rw [h b hb] at hd
    exact absurd hd List.not_mem_nil

theorem Spelling.noErrors_typos (table : List Spelling) (code : List Char) :
    NoErrors (typos table code) := by
  intro d hd
  obtain ⟨l, -, hd⟩ := List.mem_flatMap.mp hd
  obtain ⟨s, -, hd⟩ := List.mem_flatMap.mp hd
  obtain ⟨v, -, hd⟩ := List.mem_flatMap.mp hd
  obtain ⟨w, -, rfl⟩ := List.mem_map.mp hd
  exact Diagnostic.warning_ne_error _ _

theorem UndefinedName.noErrors_find (code : List Char) : NoErrors (find code) := by
  intro d hd
  obtain ⟨l, -, hd⟩ := List.mem_flatMap.mp hd
  obtain ⟨w, -, rfl⟩ := List.mem_map.mp hd
  exact Diagnostic.warning_ne_error _ _

theorem Semicolon.noErrors_missingInScript (code : List Char) :
    NoErrors (missingInScript code) := by
  intro d hd
  obtain ⟨⟨line, n⟩, -, hd⟩ := List.mem_filterMap.mp hd
  dsimp only at hd
  split_ifs at hd
  rw [← Option.some.inj hd]
  exact Diagnostic.warning_ne_error _ _

theorem Semicolon.allErrors_missingInBlock (code : List Char) :
    AllErrors (missingInBlock code) := by
  unfold missingInBlock
  generalize lines (Source.mask code) = ls
  generalize 1 = n
  induction ls generalizing n with
  | nil => exact fun d h => absurd h List.not_mem_nil
  | cons line ls ih =>
    unfold missingInBlockFrom
    dsimp only
    split_ifs
    · intro d hd
      rcases List.mem_cons.mp hd with rfl | hd
      · rfl
      · exact ih _ d hd
    · exact ih _

namespace Smell

theorem noErrors_missingGuard (code : List Char) : NoErrors (missingGuard code) := by
  intro d hd
  unfold missingGuard at hd
  split at hd
  · split_ifs at hd
    · rw [List.mem_singleton.mp hd]
      exact Diagnostic.warning_ne_error _ _
    · exact absurd hd List.not_mem_nil
  · exact absurd hd List.not_mem_nil

theorem noErrors_usingNamespaceStd (masked : List Char) :
    NoErrors (usingNamespaceStd masked) := by
  unfold usingNamespaceStd
  split_ifs
  · intro d hd
    obtain ⟨l, -, hd⟩ := List.mem_filterMap.mp hd
    obtain ⟨f, -, rfl⟩ := Option.map_eq_some_iff.mp hd
    exact Diagnostic.warning_ne_error _ _
  · exact .nil

theorem noErrors_mainWithoutReturn (masked : List Char) :
    NoErrors (mainWithoutReturn masked) := by
  intro d hd
  obtain ⟨⟨place, rest⟩, -, hd⟩ := List.mem_filterMap.mp hd
  dsimp only at hd
  split at hd
  · split_ifs at hd
    rw [← Option.some.inj hd]
    exact Diagnostic.warning_ne_error _ _
  · exact absurd hd (by simp)

theorem noErrors_newWithoutDelete (masked : List Char) : NoErrors (newWithoutDelete masked) := by
  unfold newWithoutDelete
  split_ifs
  · exact .nil
  · intro d hd
    obtain ⟨l, -, hd⟩ := List.mem_flatMap.mp hd
    obtain ⟨f, -, rfl⟩ := List.mem_map.mp hd
    exact Diagnostic.warning_ne_error _ _

theorem noErrors_arrowNearNull (masked : List Char) : NoErrors (arrowNearNull masked) := by
  intro d hd
  obtain ⟨⟨line, n⟩, -, hd⟩ := List.mem_filterMap.mp hd
  dsimp only at hd
  split_ifs at hd
  obtain ⟨f, -, rfl⟩ := Option.map_eq_some_iff.mp hd
  exact Diagnostic.warning_ne_error _ _

theorem noErrors_find (code : List Char) : NoErrors (find code) := by
  unfold find
  simp only [noErrors_append]
  exact ⟨⟨⟨⟨noErrors_missingGuard code, noErrors_usingNamespaceStd _⟩,
    noErrors_mainWithoutReturn _⟩, noErrors_newWithoutDelete _⟩, noErrors_arrowNearNull _⟩

end Smell

namespace CDialect

theorem allErrors_cppKeywordUses (masked : List Char) : AllErrors (cppKeywordUses masked) := by
  intro d hd
  obtain ⟨l, -, hd⟩ := List.mem_flatMap.mp hd
  obtain ⟨w, -, rfl⟩ := List.mem_map.mp hd
  rfl

theorem noErrors_lateDeclarations (masked : List Char) : NoErrors (lateDeclarations masked) := by
  unfold lateDeclarations
  generalize lines masked = ls
  generalize none = previous
  generalize 1 = n
  induction ls generalizing previous n with
  | nil => exact .nil
  | cons line ls ih =>
    have hrest := ih (if (trim line).isEmpty then previous else some line) (n + 1)
    unfold lateDeclarationsFrom
    dsimp only
    by_cases h : (isDeclaration line && previous.any endsStatement) = true
    · rw [if_pos h]
      intro d hd
      rcases List.mem_cons.mp hd with rfl | hd
      · exact Diagnostic.warning_ne_error _ _
      · exact hrest d hd
    · rw [if_neg h]
      exact hrest

theorem noErrors_missingPrototype? (declared : List String) (n : ℕ) (line : List Char) :
    NoErrors (missingPrototype? declared n line).toList := by
  intro d hd
  have h := Option.mem_toList.mp hd
  unfold missingPrototype? at h
  split at h
  · dsimp only at h
    split_ifs at h
    rw [← Option.some.inj h]
    exact Diagnostic.warning_ne_error _ _
  · exact absurd h (by simp)

theorem noErrors_missingPrototypes (masked : List Char) :
    NoErrors (missingPrototypes masked) := by
  unfold missingPrototypes
  generalize lines masked = ls
  generalize ([] : List String) = declared
  generalize 1 = n
  induction ls generalizing declared n with
  | nil => exact .nil
  | cons line ls ih =>
    unfold missingPrototypesFrom
    by_cases hs : line.contains ';' = true
    · rw [if_pos hs]
      exact ih _ _
    · rw [if_neg hs]
      exact noErrors_append.mpr ⟨noErrors_missingPrototype? declared n line, ih _ _⟩

theorem noErrors_lineComments (code : List Char) : NoErrors (lineComments code) := by
  intro d hd
  obtain ⟨p, -, rfl⟩ := List.mem_map.mp hd
  exact Diagnostic.warning_ne_error _ _

end CDialect
end SnippetLint
