import SnippetLint.Proofs.Analysis.Pipeline
import SnippetLint.Proofs.Pass.Severity

/-! What makes a snippet valid. Advice never does, and an error that is left out as a repetition
leaves the one that it repeats. -/
namespace SnippetLint

theorem Result.isValid_iff (r : Result) : r.isValid = true ↔ NoErrors r.diagnostics := by
  unfold isValid NoErrors Diagnostic.isError
  simp

namespace TypeScript

theorem Finding.category_ofIssue (i : Issue) : (Finding.ofIssue i).category = .error := by
  unfold ofIssue
  split
  · rfl
  · split_ifs <;> rfl

theorem noErrors_ofFinding (source : List Char) (fs : List Finding) :
    NoErrors (fs.map (.ofFinding source)) ↔ ∀ f ∈ fs, f.category ≠ .error := by
  unfold NoErrors Diagnostic.ofFinding
  simp only [List.mem_map, forall_exists_index, and_imp, forall_apply_eq_imp_iff₂]
  refine forall₂_congr fun f _ => ?_
  split_ifs with h <;> simp [h]

theorem noErrors_syntactic (source : List Char) (t : ParseTree) :
    NoErrors ((syntactic source t).map (.ofFinding source)) ↔ t.issues source = [] := by
  rw [noErrors_ofFinding]
  unfold syntactic
  simp only [List.mem_map, forall_exists_index, and_imp, forall_apply_eq_imp_iff₂,
    Finding.category_ofIssue, ne_eq, not_true_eq_false, imp_false]
  exact List.eq_nil_iff_forall_not_mem.symm

end TypeScript

namespace Analysis

theorem noErrors_onlyIf (enabled : Bool) (ds : List Diagnostic) :
    NoErrors (onlyIf enabled ds) ↔ (enabled = true → NoErrors ds) := by
  cases enabled with
  | false => exact ⟨fun _ h => absurd h Bool.false_ne_true, fun _ => .nil⟩
  | true => exact ⟨fun h _ => h, fun h => h rfl⟩

theorem allErrors_tolerant (parse : Parser) (code : String) :
    AllErrors (tolerant parse code).1 := by
  unfold tolerant
  split
  · intro d hd
    obtain ⟨i, -, rfl⟩ := List.mem_map.mp hd
    rfl
  · intro d hd
    rw [List.mem_singleton.mp hd]
    rfl

theorem tolerant_eq_nil (parse : Parser) (code : String) :
    (tolerant parse code).1 = [] ↔
      ∃ t, parse .javascript code = some t ∧ t.issues code.toList = [] := by
  unfold tolerant
  cases parse .javascript code with
  | none => simp
  | some t => simp [ScriptError.all]

theorem isError_of_strict? {parse : Parser} {code : String} {d : Diagnostic}
    (h : strict? parse code = some d) : d.severity = .error := by
  unfold strict? at h
  split at h
  · obtain ⟨i, -, rfl⟩ := Option.map_eq_some_iff.mp h
    rfl
  · rw [← Option.some.inj h]
    rfl

theorem strict?_eq_none (parse : Parser) (code : String) :
    strict? parse code = none ↔ ∃ t, parse .tsx code = some t ∧ t.issues code.toList = [] := by
  unfold strict?
  cases parse .tsx code with
  | none => simp
  | some t => simp [ScriptError.first?]

/-- The strict error is left out only next to another one. -/
theorem noErrors_parserDiagnostics (parse : Parser) (dedupLength : ℕ) (code : String) :
    NoErrors (parserDiagnostics parse dedupLength code) ↔
      (tolerant parse code).1 = [] ∧ strict? parse code = none := by
  rw [parserDiagnostics_eq, noErrors_append, (allErrors_tolerant parse code).noErrors_iff]
  refine and_congr_right fun ht => ?_
  unfold strictNews
  rw [ht]
  cases hs : strict? parse code with
  | none => exact ⟨fun _ => rfl, fun _ => .nil⟩
  | some d =>
    have hd : d.severity = .error := isError_of_strict? hs
    simp [NoErrors, Diagnostic.repeated, hd]

theorem noErrors_scriptDiagnostics (checks : Checks) (code : List Char) :
    NoErrors (scriptDiagnostics checks code) ↔ ∀ b, Bracket.scan code b = [] := by
  unfold scriptDiagnostics
  have hall : ∀ b, b ∈ Bracket.scriptOrder := by
    intro b
    cases b <;> decide
  simp [noErrors_append, noErrors_onlyIf, Bracket.noErrors_scanAll, hall,
    Spelling.noErrors_typos, Semicolon.noErrors_missingInScript, UndefinedName.noErrors_find]

theorem noErrors_cppDiagnostics (checks : Checks) (code : List Char) :
    NoErrors (cppDiagnostics checks code) ↔ (∀ b, Bracket.scan code b = []) ∧
      (checks.missingSemicolons = true → Semicolon.missingInBlock code = []) := by
  unfold cppDiagnostics
  have hall : ∀ b, b ∈ Bracket.blockOrder := by
    intro b
    cases b <;> decide
  simp [noErrors_append, noErrors_onlyIf, Bracket.noErrors_scanAll, hall,
    (Semicolon.allErrors_missingInBlock code).noErrors_iff, Spelling.noErrors_typos,
    Smell.noErrors_find]

theorem noErrors_cDiagnostics (checks : Checks) (code : List Char) :
    NoErrors (cDiagnostics checks code) ↔
      CDialect.cppKeywordUses (Source.mask code) = [] := by
  unfold cDiagnostics CDialect.violations
  simp only [← onlyIf.eq_def]
  simp [noErrors_append, noErrors_onlyIf, (CDialect.allErrors_cppKeywordUses _).noErrors_iff,
    CDialect.noErrors_lateDeclarations, CDialect.noErrors_missingPrototypes,
    CDialect.noErrors_lineComments]

theorem noErrors_compiled (parse : Parser) (options : TypeScript.Options) (code : String) :
    NoErrors (compiled parse options code).1 ↔
      ∃ t, parse .typescript code = some t ∧ t.issues code.toList = [] ∧
        ∀ f ∈ TypeScript.semantic ⟨code.toList, t⟩ options, f.category ≠ .error := by
  unfold compiled
  cases parse .typescript code with
  | none => simp [NoErrors, noTree, Diagnostic.error]
  | some t =>
    dsimp only
    rw [List.map_append, noErrors_append, TypeScript.noErrors_syntactic,
      TypeScript.noErrors_ofFinding]
    simp

/-- What validity comes down to in each language. -/
theorem isValid_iff_of_language (parse : Parser) (options : TypeScript.Options)
    (settings : Settings) (code title : String) :
    ((javascript parse settings code title).isValid = true ↔
      (∃ t, parse .javascript code = some t ∧ t.issues code.toList = []) ∧
        (∃ t, parse .tsx code = some t ∧ t.issues code.toList = []) ∧
          ∀ b, Bracket.scan code.toList b = []) ∧
    ((typescript parse options settings code title).isValid = true ↔
      ∃ t, parse .typescript code = some t ∧ t.issues code.toList = [] ∧
        ∀ f ∈ TypeScript.semantic ⟨code.toList, t⟩ options, f.category ≠ .error) ∧
    ((cpp settings code title).isValid = true ↔
      (∀ b, Bracket.scan code.toList b = []) ∧
        (settings.checks.missingSemicolons = true →
          Semicolon.missingInBlock code.toList = [])) ∧
    ((c settings code title).isValid = true ↔
      (cpp settings code title).isValid = true ∧
        CDialect.cppKeywordUses (Source.mask code.toList) = []) := by
  simp only [Result.isValid_iff]
  refine ⟨?_, ?_, ?_, ?_⟩
  · rw [diagnostics_javascript, noErrors_append, noErrors_parserDiagnostics, tolerant_eq_nil,
      strict?_eq_none, noErrors_scriptDiagnostics, and_assoc]
  · rw [diagnostics_typescript, noErrors_append, noErrors_compiled, noErrors_onlyIf]
    exact and_iff_left fun _ => Spelling.noErrors_typos _ _
  · rw [diagnostics_cpp, noErrors_cppDiagnostics]
  · rw [diagnostics_c, diagnostics_cpp, noErrors_append, noErrors_cDiagnostics]

end Analysis
end SnippetLint
