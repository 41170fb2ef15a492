import SnippetLint.Proofs.Analysis.Validity
import SnippetLint.Proofs.TypeScript.ReturnPaths
import SnippetLint.Proofs.TypeScript.Strictness

/-! Analysis of TypeScript under stricter options: errors stay, and what is valid is valid under
less strict options, too. -/
namespace SnippetLint.Analysis
open TypeScript

theorem isValid_typescript_iff (parse : Parser) (options : Options) (settings : Settings)
    (code title : String) :
    (typescript parse options settings code title).isValid = true ↔
      ∃ t, parse .typescript code = some t ∧ t.issues code.toList = [] ∧
        ∀ f ∈ semantic ⟨code.toList, t⟩ options, f.category ≠ .error := by
  rw [Result.isValid_iff, diagnostics_typescript, noErrors_append, noErrors_compiled,
    noErrors_onlyIf]
  exact and_iff_left fun _ => Spelling.noErrors_typos _ _

theorem category_ne_error_of_stricter {o o' : Options} (h : o ≤ o') {p : Program}
    (hv : ∀ f ∈ semantic p o', f.category ≠ .error) : ∀ f ∈ semantic p o, f.category ≠ .error := by
  intro f hf hc
  have he : f ∈ errors (semantic p o) := List.mem_filter.mpr ⟨hf, beq_iff_eq.mpr hc⟩
  have hm : f ∈ errors (semantic p o') := (errors_semantic_sublist h p).subset he
  exact hv f (List.mem_filter.mp hm).1 hc

/-- Flags set on top leave every error as it is and in its order, and what is still valid then was
valid before. Untyped parameters and unused names are the same ones under all options. -/
theorem stricter_only_adds_errors (o o' : Options) :
    (o ≤ o' → ∀ p, (errors (semantic p o)).Sublist (errors (semantic p o'))) ∧
    (∀ p, List.Forall₂ Regraded (graded (semantic p o)) (graded (semantic p o'))) ∧
    (o ≤ o' → ∀ parse settings code title,
      (typescript parse o' settings code title).isValid = true →
        (typescript parse o settings code title).isValid = true) := by
  refine ⟨fun h p => errors_semantic_sublist h p, regraded_semantic o o', ?_⟩
  intro h parse settings code title hv
  rw [isValid_typescript_iff] at hv ⊢
  obtain ⟨t, ht, hi, hs⟩ := hv
  exact ⟨t, ht, hi, category_ne_error_of_stricter h hs⟩

namespace Sample
open TypeScript.Sample (named token)

def code : String := "function f(_a) \x7b \x7d"

/-- The tree of the code. -/
def untyped : ParseTree :=
  named "program" 0 18 none [
    named "function_declaration" 0 18 none [token "function" 0,
      named "identifier" 9 10 (some "name") [],
      named "formal_parameters" 10 14 (some "parameters") [token "(" 10,
        named "required_parameter" 11 13 none [named "identifier" 11 13 (some "pattern") []],
        token ")" 13],
      named "statement_block" 15 18 (some "body") [token "\x7b" 15, token "\x7d" 17]]]

/-- Parameters without a type are errors, and nothing else is. -/
def typed : Options := { Options.lenient with noImplicitAny := true }

/-- Everything but parameters without a type is an error. -/
def untypedAllowed : Options := { Options.allStrict with strict := false, noImplicitAny := false }

/-- The parameter is an error under both options of the first pair, and under those of the second
the code is valid. -/
theorem findings_untyped :
    typed ≤ .allStrict ∧ (errors (semantic ⟨code.toList, untyped⟩ typed)).length = 1 ∧
    (errors (semantic ⟨code.toList, untyped⟩ typed)).Sublist
      (errors (semantic ⟨code.toList, untyped⟩ .allStrict)) ∧
    .lenient ≤ untypedAllowed ∧
    (typescript (fun _ _ => some untyped) untypedAllowed .standard code "").isValid = true ∧
    (typescript (fun _ _ => some untyped) .lenient .standard code "").isValid = true := by
  have hstrict : typed ≤ .allStrict := by decide
  have hallowed : .lenient ≤ untypedAllowed := by decide
  have hvalid : (typescript (fun _ _ => some untyped) untypedAllowed .standard code "").isValid =
      true := by decide +kernel
  exact ⟨hstrict, by decide +kernel, (stricter_only_adds_errors _ _).1 hstrict _, hallowed, hvalid,
    (stricter_only_adds_errors _ _).2.2 hallowed _ _ _ _ hvalid⟩

end Sample

end SnippetLint.Analysis
