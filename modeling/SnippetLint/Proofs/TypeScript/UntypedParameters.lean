import Mathlib.Data.List.Flatten
import SnippetLint.Proofs.TypeScript.ParameterNames
import SnippetLint.Proofs.TypeScript.ReturnPaths
import SnippetLint.Proofs.TypeScript.Strictness

/-! Parameters without a type. All that is said of missing types is said of the parameters of the
functions that are visited, once of each; generator functions in expressions are not visited. -/
namespace SnippetLint.TypeScript
open ParseTree

variable {p : Program} {o : Options} {refs : List Reference} {s : Site} {q q' : Parameter}
  {f : Finding}

def untypedCodes : List ℕ := [7006, 7019, 7044]

/-- What is said of missing types. -/
def untypedFindings (fs : List Finding) : List Finding :=
  fs.filter (untypedCodes.contains ·.code)

theorem untypedFindings_append (fs gs : List Finding) :
    untypedFindings (fs ++ gs) = untypedFindings fs ++ untypedFindings gs :=
  List.filter_append fs gs

theorem untypedFindings_of_graded {fs : List Finding} (h : graded fs = []) :
    untypedFindings fs = [] := by
  have hsubset : untypedCodes ⊆ gradedCodes := by decide
  unfold graded at h
  rw [List.filter_eq_nil_iff] at h
  unfold untypedFindings
  rw [List.filter_eq_nil_iff]
  intro f hf hcode
  have hgraded := hsubset (List.contains_iff_mem.mp hcode)
  exact h f hf (List.contains_iff_mem.mpr hgraded)

theorem untypedFindings_unusedLocal (name : List Char) (start : ℕ) :
    untypedFindings (unusedLocal refs o name start) = [] := by
  unfold unusedLocal
  split_ifs <;> rfl

theorem untypedFindings_unusedParameter (body : ParseTree) :
    untypedFindings (unusedParameter refs o body q) = [] := by
  unfold unusedParameter
  split_ifs <;> rfl

theorem code_implicitAny (o : Options) (q : Parameter) :
    (implicitAny o q).code =
      if q.rest then 7019 else if o.forbidsImplicitAny then 7006 else 7044 := by
  unfold implicitAny
  dsimp only
  split_ifs <;> rfl

theorem untypedFindings_map_implicitAny (qs : List Parameter) :
    untypedFindings (qs.map (implicitAny o)) = qs.map (implicitAny o) := by
  unfold untypedFindings
  rw [List.filter_eq_self]
  intro f hf
  obtain ⟨q, -, rfl⟩ := List.mem_map.mp hf
  rw [code_implicitAny]
  split_ifs <;> rfl

/-- The parameters of a function that get no type from anywhere. -/
def untypedOf (p : Program) (s : Site) : List Parameter :=
  if contextuallyTyped s then [] else (Parameter.ofFunction p.source s.tree).filter (!·.typed)

theorem untypedOf_sublist (p : Program) (s : Site) :
    (untypedOf p s).Sublist (Parameter.ofFunction p.source s.tree) := by
  unfold untypedOf
  split_ifs
  · exact List.nil_sublist _
  · exact List.filter_sublist

theorem mem_untypedOf_iff : q ∈ untypedOf p s ↔ contextuallyTyped s = false ∧
    q ∈ Parameter.ofFunction p.source s.tree ∧ q.typed = false := by
  unfold untypedOf
  cases contextuallyTyped s <;> simp

/-- The untyped parameters of all functions that are visited. -/
def Program.untyped (p : Program) : List Parameter :=
  (p.root.sites.filter isChecked).flatMap (untypedOf p)

theorem mem_untyped_iff : q ∈ p.untyped ↔ ∃ s ∈ p.root.sites, isChecked s = true ∧
    contextuallyTyped s = false ∧ q ∈ Parameter.ofFunction p.source s.tree ∧ q.typed = false := by
  simp only [Program.untyped, List.mem_flatMap, List.mem_filter, mem_untypedOf_iff, and_assoc]

theorem untypedFindings_checkFunction :
    untypedFindings (checkFunction p refs o s) = (untypedOf p s).map (implicitAny o) := by
  have hnames : ∀ (b : Bool) (name : Option ParseTree), untypedFindings (if b = true then
      name.elim [] fun c => unusedLocal refs o (c.text p.source) c.start else []) = [] := by
    intro b name
    cases b
    · rfl
    · cases name
      · rfl
      · exact untypedFindings_unusedLocal _ _
  unfold checkFunction
  dsimp only
  rw [untypedFindings_append, untypedFindings_append, hnames, List.append_nil]
  have huntyped : untypedFindings (if contextuallyTyped s = true then [] else
      ((Parameter.ofFunction p.source s.tree).filter (!·.typed)).map (implicitAny o)) =
      (untypedOf p s).map (implicitAny o) := by
    unfold untypedOf
    split_ifs
    · rfl
    · exact untypedFindings_map_implicitAny _
  rw [huntyped]
  cases s.tree.child? "body" with
  | none => simp [untypedFindings]
  | some body =>
    have hparameters : untypedFindings ((Parameter.ofFunction p.source s.tree).flatMap
        (unusedParameter refs o body)) = [] := by
      unfold untypedFindings
      rw [List.filter_flatMap, List.flatMap_eq_nil_iff]
      exact fun q _ => untypedFindings_unusedParameter body
    have hreturns := untypedFindings_of_graded (graded_missingReturns p.source o s.tree body)
    dsimp only
    rw [untypedFindings_append, hparameters]
    split_ifs
    · rw [hreturns, List.append_nil, List.append_nil]
    · simp [untypedFindings]

theorem untypedFindings_checkDeclarator :
    untypedFindings (checkDeclarator p refs o s) = [] := by
  unfold checkDeclarator
  split
  case h_1 => rfl
  case h_2 d above _ =>
    have hmismatch := untypedFindings_of_graded (graded_mismatch p o d s.tree.start)
    rw [untypedFindings_append, hmismatch, List.append_nil]
    split_ifs
    · exact untypedFindings_unusedLocal _ _
    · rfl

/-- What is said of missing types is one finding for each untyped parameter of a function that is
visited, in their order. -/
theorem untypedFindings_check (p : Program) (o : Options) :
    untypedFindings (check p o) = p.untyped.map (implicitAny o) := by
  have hfunctions : untypedFindings ((p.root.sites.filter isChecked).flatMap
      (checkFunction p p.references o)) = p.untyped.map (implicitAny o) := by
    unfold untypedFindings Program.untyped
    rw [List.filter_flatMap, List.map_flatMap]
    exact List.flatMap_congr fun s _ => untypedFindings_checkFunction
  have hdeclarators : untypedFindings ((p.root.sites.filter isDeclaredName).flatMap
      (checkDeclarator p p.references o)) = [] := by
    unfold untypedFindings
    rw [List.filter_flatMap, List.flatMap_eq_nil_iff]
    exact fun s _ => untypedFindings_checkDeclarator
  unfold check
  dsimp only
  rw [untypedFindings_append, hfunctions, hdeclarators, List.append_nil]

/-- What may be said of a parameter of the name that has no type. -/
def untypedReports (name : List Char) : List (ℕ × String) :=
  let shown := String.ofList name
  [(7019, "Rest parameter '" ++ shown ++ "' implicitly has an 'any[]' type."),
    (7006, "Parameter '" ++ shown ++ "' implicitly has an 'any' type."),
    (7044, "Parameter '" ++ shown ++
      "' implicitly has an 'any' type, but a better type may be inferred from usage.")]

/-- The finding says at the name of the parameter that it has no type. -/
def saysUntyped (q : Parameter) (f : Finding) : Bool :=
  f.start == q.start && (untypedReports q.name).contains (f.code, f.message)

theorem mem_untypedCodes_of_saysUntyped (h : saysUntyped q f = true) :
    untypedCodes.contains f.code = true := by
  have hcodes : (untypedReports q.name).map Prod.fst = [7019, 7006, 7044] := rfl
  rw [saysUntyped, Bool.and_eq_true, List.contains_iff_mem] at h
  have hmem := List.mem_map_of_mem (f := Prod.fst) h.2
  rw [hcodes] at hmem
  simpa [untypedCodes, or_left_comm, or_comm, or_assoc] using hmem

theorem quoted_injective (before after : String) :
    Function.Injective fun name : List Char => before ++ String.ofList name ++ after := by
  intro a b h
  have hlist := congrArg String.toList h
  simpa using hlist

theorem saysUntyped_implicitAny :
    saysUntyped q (implicitAny o q') = true ↔ q'.start = q.start ∧ q'.name = q.name := by
  unfold saysUntyped implicitAny untypedReports
  dsimp only
  split_ifs <;> simp [Finding.graded, (quoted_injective _ _).eq_iff]

theorem isFunction_of_isChecked (h : isChecked s = true) : isFunction s.tree = true := by
  have hsubset : checkedKinds ⊆ functionKinds := by decide
  rw [isChecked, Bool.and_eq_true, List.contains_iff_mem] at h
  exact List.contains_iff_mem.mpr (hsubset h.2)

theorem filter_saysUntyped_check (p : Program) (o : Options) (q : Parameter) :
    (check p o).filter (saysUntyped q) =
      (p.untyped.filter fun x => x.start == q.start && x.name == q.name).map (implicitAny o) := by
  have hcodes : (check p o).filter (saysUntyped q) =
      (untypedFindings (check p o)).filter (saysUntyped q) := by
    unfold untypedFindings
    rw [List.filter_filter]
    refine List.filter_congr fun f _ => ?_
    cases h : saysUntyped q f with
    | false => rfl
    | true => rw [mem_untypedCodes_of_saysUntyped h]; rfl
  rw [hcodes, untypedFindings_check, List.filter_map]
  congr 1
  refine List.filter_congr fun x _ => ?_
  rw [Bool.eq_iff_iff, Function.comp_apply, saysUntyped_implicitAny]
  simp

/-- Of all functions only generator functions in expressions are not visited. -/
theorem isChecked_iff (hf : isFunction s.tree = true) :
    isChecked s = true ↔ s.tree.named = true ∧ s.tree.kind ≠ "generator_function" := by
  have hkinds : ∀ k ∈ functionKinds, k ∈ checkedKinds ↔ k ≠ "generator_function" := by decide
  rw [isChecked, Bool.and_eq_true, List.contains_iff_mem,
    hkinds _ (List.contains_iff_mem.mp hf)]

theorem untyped_sublist_parameters (p : Program) :
    (p.untyped.filter fun q => !q.name.isEmpty).Sublist p.parameters := by
  have hchecked : (p.root.sites.filter isChecked).Sublist
      (p.root.sites.filter fun s => isFunction s.tree) :=
    List.monotone_filter_right _ fun s h => isFunction_of_isChecked h
  have huntyped : p.untyped.Sublist
      ((p.root.sites.filter isChecked).flatMap fun s => Parameter.ofFunction p.source s.tree) :=
    List.Sublist.flatMap_right _ fun s _ => untypedOf_sublist p s
  exact (huntyped.trans (hchecked.flatMap _)).filter _

section
variable (hn : p.root.Nests) (hp : ∀ n ∈ p.root.nodes, NamesPlainly n) (hs : s ∈ p.root.sites)
  (hf : isFunction s.tree = true) (hq : q ∈ Parameter.ofFunction p.source s.tree)
  (hname : q.name ≠ [])
include hn hp hs hf hq hname

/-- An untyped parameter that is visited and stands at the place is the one of the function. -/
theorem eq_of_mem_untyped (hx : q' ∈ p.untyped) (hstart : q'.start = q.start)
    (heq : q'.name = q.name) :
    q' = q ∧ isChecked s = true ∧ contextuallyTyped s = false := by
  obtain ⟨g, hg, hchecked, hcontext, hx, -⟩ := mem_untyped_iff.mp hx
  obtain ⟨rfl, rfl⟩ := eq_of_start_eq_of_parameter hn hp hg hs (isFunction_of_isChecked hchecked)
    hf hx hq (heq ▸ hname) hname hstart
  exact ⟨rfl, hchecked, hcontext⟩

theorem filter_untyped (hmem : q ∈ p.untyped) :
    (p.untyped.filter fun x => x.start == q.start && x.name == q.name) = [q] := by
  have hsame : ∀ x ∈ p.untyped, (x.start == q.start && x.name == q.name) = (x == q) := by
    intro x hx
    rw [Bool.eq_iff_iff, Bool.and_eq_true, beq_iff_eq, beq_iff_eq, beq_iff_eq]
    constructor
    · rintro ⟨hstart, heq⟩
      exact (eq_of_mem_untyped hn hp hs hf hq hname hx hstart heq).1
    · rintro rfl
      exact ⟨rfl, rfl⟩
  have hnodup : (p.untyped.filter fun x => !x.name.isEmpty).Nodup :=
    (nodup_start_parameters hn hp).of_map.sublist (untyped_sublist_parameters p)
  have hnamed : (!q.name.isEmpty) = true := by simpa using hname
  have hcount : p.untyped.count q = 1 := by
    rw [← List.count_filter (p := fun x : Parameter => !x.name.isEmpty) hnamed]
    exact List.count_eq_one_of_mem hnodup (List.mem_filter.mpr ⟨hmem, hnamed⟩)
  rw [List.filter_congr hsame, List.filter_beq, hcount]
  rfl

/-- Every function but a generator function in an expression has each of its untyped parameters
reported once, unless it is typed from outside; such a generator has none reported. -/
theorem untyped_reported_once (htyped : q.typed = false) (o : Options) :
    (check p o).filter (saysUntyped q) =
        (if s.tree.named = true ∧ s.tree.kind ≠ "generator_function" ∧ contextuallyTyped s = false
          then [implicitAny o q] else []) ∧
      (implicitAny o q).code =
        if q.rest then 7019 else if o.forbidsImplicitAny then 7006 else 7044 := by
  refine ⟨?_, code_implicitAny o q⟩
  have hvisited : (s.tree.named = true ∧ s.tree.kind ≠ "generator_function" ∧
      contextuallyTyped s = false) ↔ isChecked s = true ∧ contextuallyTyped s = false := by
    rw [isChecked_iff hf, and_assoc]
  rw [filter_saysUntyped_check]
  split_ifs with h
  · obtain ⟨hchecked, hcontext⟩ := hvisited.mp h
    have hmem : q ∈ p.untyped := mem_untyped_iff.mpr ⟨s, hs, hchecked, hcontext, hq, htyped⟩
    rw [filter_untyped hn hp hs hf hq hname hmem]
    rfl
  · rw [List.map_eq_nil_iff, List.filter_eq_nil_iff]
    intro x hx hsame
    rw [Bool.and_eq_true, beq_iff_eq, beq_iff_eq] at hsame
    exact h (hvisited.mpr (eq_of_mem_untyped hn hp hs hf hq hname hx hsame.1 hsame.2).2)

end

namespace Sample

/-- A function with one parameter, which has no type; its kind goes with what follows its first
word. -/
def functionExpression (kind : String) (star : List ParseTree) : ParseTree :=
  named kind 10 37 (some "value") ([token "function" 10] ++ star ++ [
    named "formal_parameters" 20 23 (some "parameters") [
      token "(" 20,
      named "required_parameter" 21 22 none [named "identifier" 21 22 (some "pattern") []],
      token ")" 22],
    named "statement_block" 24 37 (some "body") [
      token "\x7b" 24,
      named "return_statement" 26 35 none
        [token "return" 26, named "identifier" 33 34 none [], token ";" 34],
      token "\x7d" 36]])

def valueDeclarator (function : ParseTree) : ParseTree :=
  named "variable_declarator" 6 37 none
    [named "identifier" 6 7 (some "name") [], token "=" 8, function]

def valueDeclaration (function : ParseTree) : ParseTree :=
  named "lexical_declaration" 0 38 none [
    .node ⟨"const", 0, 5, false, false, false, false, some "kind"⟩ [],
    valueDeclarator function, token ";" 37]

/-- A variable whose value is the function. -/
def valued (source : String) (function : ParseTree) : Program where
  source := source.toList
  root := named "program" 0 38 none [valueDeclaration function]

def valueSite (source : String) (function : ParseTree) : Site where
  tree := function
  above := [valueDeclarator function, valueDeclaration function, (valued source function).root]

theorem valueSite_mem_sites (source : String) (function : ParseTree) :
    valueSite source function ∈ (valued source function).root.sites := by
  have hroot : ⟨(valued source function).root, []⟩ ∈ (valued source function).root.sites := by
    rw [sites, mem_sitesUnder]
    exact .inl rfl
  have hdeclaration : valueDeclaration function ∈ (valued source function).root.children :=
    .head _
  have hdeclarator : valueDeclarator function ∈ (valueDeclaration function).children :=
    .tail _ (.head _)
  have hvalue : function ∈ (valueDeclarator function).children :=
    .tail _ (.tail _ (.head _))
  exact child_mem_sites (child_mem_sites (child_mem_sites hroot hdeclaration) hdeclarator) hvalue

def functionText : String := "const g = function  (a) \x7b return a; \x7d;"

def plain : ParseTree := functionExpression "function_expression" []

def generatorText : String := "const g = function* (a) \x7b return a; \x7d;"

def generator : ParseTree := functionExpression "generator_function" [token "*" 18]

/-- The parameter of a plain function is reported. -/
theorem filter_check_plain : (valued functionText plain).root.Nests ∧
    (∀ n ∈ (valued functionText plain).root.nodes, NamesPlainly n) ∧
    (check (valued functionText plain) .allStrict).filter
      (saysUntyped ⟨['a'], 21, false, false, false⟩) =
        [⟨7006, .error, 21, "Parameter 'a' implicitly has an 'any' type."⟩] := by
  have hn : (valued functionText plain).root.Nests := by decide +kernel
  have hp : ∀ n ∈ (valued functionText plain).root.nodes, NamesPlainly n := by decide +kernel
  have hq : ⟨['a'], 21, false, false, false⟩ ∈
      Parameter.ofFunction (valued functionText plain).source plain := by decide +kernel
  obtain ⟨hreported, -⟩ := untyped_reported_once hn hp (valueSite_mem_sites functionText plain)
    (by decide +kernel) hq (by decide) rfl .allStrict
  refine ⟨hn, hp, hreported.trans ?_⟩
  decide +kernel

/-- Not every function that is not typed from outside has its untyped parameters reported: a
generator function in an expression has not. -/
theorem not_untyped_reported_of_function :
    ¬∀ (p : Program) (o : Options) (s : Site) (q : Parameter), p.root.Nests →
      (∀ n ∈ p.root.nodes, NamesPlainly n) → s ∈ p.root.sites → isFunction s.tree = true →
      contextuallyTyped s = false → q ∈ Parameter.ofFunction p.source s.tree → q.name ≠ [] →
      q.typed = false → (check p o).filter (saysUntyped q) = [implicitAny o q] := by
  intro h
  have hreported := h (valued generatorText generator) .allStrict
    (valueSite generatorText generator) ⟨['a'], 21, false, false, false⟩ (by decide +kernel)
    (by decide +kernel) (valueSite_mem_sites generatorText generator) (by decide +kernel)
    (by decide +kernel) (by decide +kernel) (by decide) rfl
  revert hreported
  decide +kernel

end Sample

end SnippetLint.TypeScript
