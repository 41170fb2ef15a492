import SnippetLint.Proofs.ParseTree.Places
import SnippetLint.Proofs.ParseTree.Sites
import SnippetLint.TypeScript.Check

/-! The uses of names that the checker goes by. In a tree whose spans nest each of them stands at a
place of its own, and those that are counted in the span of a node are those below the node. -/
namespace SnippetLint.TypeScript
open ParseTree Text

/-- A node that counts as the use of a name, even where it declares the name. -/
def isReference (n : ParseTree) : Bool :=
  n.kind == "identifier" || n.kind == "shorthand_property_identifier"

/-- What the grammar says of a node: below a name there is at most a word of the language that
serves as one, and what a function is declared as, and the parameter that an arrow function has
without parentheses, is an identifier. -/
structure NamesPlainly (n : ParseTree) : Prop where
  word : isReference n = true →
    ∀ c ∈ n.children, c.children = [] ∧ c.label.field = none ∧ isReference c = false
  declared : n.kind = "function_declaration" ∨ n.kind = "generator_function_declaration" →
    ∀ c ∈ n.child? "name", c.kind = "identifier"
  single : isFunction n = true → ∀ c ∈ n.child? "parameter", c.kind = "identifier"

instance (n : ParseTree) : Decidable (NamesPlainly n) :=
  decidable_of_iff
    ((isReference n = true →
        ∀ c ∈ n.children, c.children = [] ∧ c.label.field = none ∧ isReference c = false) ∧
      (n.kind = "function_declaration" ∨ n.kind = "generator_function_declaration" →
        ∀ c ∈ n.child? "name", c.kind = "identifier") ∧
      (isFunction n = true → ∀ c ∈ n.child? "parameter", c.kind = "identifier"))
    ⟨fun ⟨h₁, h₂, h₃⟩ => ⟨h₁, h₂, h₃⟩, fun ⟨h₁, h₂, h₃⟩ => ⟨h₁, h₂, h₃⟩⟩

theorem lt_of_byteSlice_ne_nil {start stop : ℕ} {text : List Char}
    (h : byteSlice start stop text ≠ []) : start < stop := by
  induction text generalizing start stop with
  | nil => exact absurd rfl h
  | cons c cs ih =>
    by_cases hrest : byteSlice (start - c.utf8Size) (stop - c.utf8Size) cs = []
    · simp only [byteSlice, hrest] at h
      split_ifs at h with hc
      · simp only [Bool.and_eq_true, decide_eq_true_eq] at hc
        omega
      · exact absurd rfl h
    · have := ih hrest
      omega

variable {p : Program} {name : List Char} {n scope : ParseTree} {r s : Site}

theorem isReference_of_identifier (h : n.kind = "identifier") : isReference n = true := by
  rw [isReference, h]
  rfl

/-- The walk passes over no node, and notes each use of a name as it comes to it. -/
theorem references_eq (p : Program) :
    p.references = (p.root.nodes.filter isReference).map fun n => ⟨n.text p.source, n.start⟩ := by
  have hpush : ∀ ns : List ParseTree,
      ns.foldl (fun found n =>
          if isReference n then found.push (⟨n.text p.source, n.start⟩ : Reference)
          else found) #[] =
        ((ns.filter isReference).map fun n => ⟨n.text p.source, n.start⟩).toArray := by
    intro ns
    rw [← List.foldl_filter, List.foldl_push_eq_append, Array.empty_append]
  rw [Program.references, walk_eq_foldl]
  · simp only [List.flatMap_singleton, apply_ite Prod.fst]
    exact congrArg Array.toList (hpush p.root.nodes)
  · intro found t
    split_ifs <;> rfl

theorem references_eq_map_sites (p : Program) :
    p.references = (p.root.sites.filter fun s => isReference s.tree).map fun s =>
      ⟨s.tree.text p.source, s.tree.start⟩ := by
  rw [references_eq, nodes, List.filter_map, List.map_map]
  rfl

theorem mem_references {x : Reference} :
    x ∈ p.references ↔ ∃ n ∈ p.root.nodes, isReference n = true ∧
      x = ⟨n.text p.source, n.start⟩ := by
  rw [references_eq, List.mem_map]
  constructor
  · rintro ⟨n, hn, rfl⟩
    exact ⟨n, (List.mem_filter.mp hn).1, (List.mem_filter.mp hn).2, rfl⟩
  · rintro ⟨n, hn, hr, rfl⟩
    exact ⟨n, List.mem_filter.mpr ⟨hn, hr⟩, rfl⟩

/-- Where the uses of a name have width and none is below another, those that are counted within a
node are the ones below it, unless it is below one of them itself. -/
theorem referencesWithin_eq_of_scattered (hn : p.root.Nests)
    (hname : Scattered (fun n => isReference n && n.text p.source == name) p.root)
    (hs : scope ∈ p.root.nodes)
    (hscope : ∀ n ∈ p.root.nodes, (isReference n && n.text p.source == name) = true →
      ∀ c ∈ n.children, scope ∉ c.nodes) :
    referencesWithin p.references name scope =
      (scope.nodes.filter fun n => isReference n && n.text p.source == name).length := by
  rw [← hn.filter_nodes_within hname hs hscope, referencesWithin, references_eq,
    List.filter_map, List.length_map, List.filter_filter]
  congr 1
  refine List.filter_congr fun n _ => ?_
  simp only [Function.comp_apply]
  cases isReference n <;> simp [Bool.and_assoc]

section
variable (hn : p.root.Nests) (hp : ∀ n ∈ p.root.nodes, NamesPlainly n)

include hp in
theorem plain_of_mem_nodes_below {c m : ParseTree} (hmem : n ∈ p.root.nodes)
    (hr : isReference n = true) (hc : c ∈ n.children) (hm : m ∈ c.nodes) :
    m.label.field = none ∧ isReference m = false := by
  obtain ⟨hleaf, hplain⟩ := (hp n hmem).word hr c hc
  rw [nodes_eq, hleaf] at hm
  obtain rfl := List.mem_singleton.mp hm
  exact hplain

include hp in
theorem scattered_references :
    Scattered (fun n => isReference n && n.text p.source != []) p.root where
  wide n _ h := by
    rw [Bool.and_eq_true, bne_iff_ne] at h
    exact lt_of_byteSlice_ne_nil h.2
  apart n hmem h c hc m hm := by
    have hplain := plain_of_mem_nodes_below hp hmem (Bool.and_eq_true_iff.mp h).1 hc hm
    rw [hplain.2, Bool.false_and]

include hp in
theorem scattered_name (hname : name ≠ []) :
    Scattered (fun n => isReference n && n.text p.source == name) p.root := by
  refine (scattered_references hp).imp fun n h => ?_
  rw [Bool.and_eq_true, beq_iff_eq] at h
  rw [h.1, h.2, Bool.true_and, bne_iff_ne]
  exact hname

include hn hp

/-- Two uses that start at one place are one. -/
theorem eq_of_start_eq_of_reference (hr : r ∈ p.root.sites) (hs : s ∈ p.root.sites)
    (hrr : isReference r.tree = true) (hsr : isReference s.tree = true)
    (hrt : r.tree.text p.source ≠ []) (hst : s.tree.text p.source ≠ [])
    (heq : r.tree.start = s.tree.start) : r = s :=
  hn.eq_of_start_eq (scattered_references hp) hr hs (by simp [hrr, hrt]) (by simp [hsr, hst]) heq

/-- What is counted within a node that has a role is below it. -/
theorem referencesWithin_eq (hs : scope ∈ p.root.nodes) (hrole : scope.label.field ≠ none)
    (hname : name ≠ []) :
    referencesWithin p.references name scope =
      (scope.nodes.filter fun n => isReference n && n.text p.source == name).length :=
  referencesWithin_eq_of_scattered hn (scattered_name hp hname) hs fun _ hmem h _ hc hbelow =>
    hrole (plain_of_mem_nodes_below hp hmem (Bool.and_eq_true_iff.mp h).1 hc hbelow).1

theorem referencesWithin_eq_zero_iff (hs : scope ∈ p.root.nodes)
    (hrole : scope.label.field ≠ none) (hname : name ≠ []) :
    referencesWithin p.references name scope = 0 ↔
      ∀ n ∈ scope.nodes, isReference n = true → n.text p.source ≠ name := by
  rw [referencesWithin_eq hn hp hs hrole hname, List.length_eq_zero_iff, List.filter_eq_nil_iff]
  simp

end

/-! ### Names without anything below them -/

theorem scattered_leaves (hleaf : ∀ n ∈ p.root.nodes, isReference n = true → n.children = [])
    (hname : name ≠ []) :
    Scattered (fun n => isReference n && n.text p.source == name) p.root where
  wide n _ h := by
    rw [Bool.and_eq_true, beq_iff_eq] at h
    exact lt_of_byteSlice_ne_nil (h.2.trans_ne hname)
  apart n hmem h c hc := by
    rw [hleaf n hmem (Bool.and_eq_true_iff.mp h).1] at hc
    exact absurd hc List.not_mem_nil

theorem pairwise_references (hn : p.root.Nests) :
    p.references.Pairwise fun x y => x.start ≤ y.start := by
  rw [references_eq_map_sites, List.pairwise_map]
  refine ((hn.pairwise_sitesUnder []).imp_of_mem fun hr hs hrs => ?_).filter _
  have hnests := hn.of_mem_nodes (mem_nodes_of_mem_sitesUnder hr)
  rcases hrs with ⟨⟨c, hc, hbelow⟩, -⟩ | hle
  · exact (hnests.span_of_mem_nodes (mem_nodes_of_child hc hbelow)).1
  · exact Nat.le_trans (hnests.span_of_mem_nodes (mem_nodes_self _)).2.1 hle

/-- The uses of names that are listed are those of the tree, each place once and in the order of
the text. Where spans nest and names have nothing below them, the uses of a name that start in the
span of a node are the ones below it: a node without width at its border has no name. -/
theorem references_listed_and_counted (hn : p.root.Nests)
    (hleaf : ∀ n ∈ p.root.nodes, isReference n = true → n.children = []) :
    (∃ ps : List (List ℕ × ParseTree),
      (∀ place n, (place, n) ∈ ps ↔ p.root.at? place = some n ∧ isReference n = true) ∧
      (ps.Pairwise fun a b => List.Lex (· < ·) a.1 b.1) ∧
      p.references = ps.map fun a => ⟨a.2.text p.source, a.2.start⟩) ∧
    (p.references.Pairwise fun x y => x.start ≤ y.start) ∧
    ∀ name, name ≠ [] → ∀ scope ∈ p.root.nodes,
      referencesWithin p.references name scope =
        (scope.nodes.filter fun n => isReference n && n.text p.source == name).length := by
  refine ⟨⟨p.root.places.filter fun a => isReference a.2, fun place n => ?_,
    (pairwise_places p.root).filter _, ?_⟩, pairwise_references hn, fun name hname scope hs => ?_⟩
  · rw [List.mem_filter, mem_places]
  · rw [references_eq, ← map_snd_places, List.filter_map, List.map_map]
    rfl
  · refine referencesWithin_eq_of_scattered hn (scattered_leaves hleaf hname) hs ?_
    intro n hmem h c hc
    rw [hleaf n hmem (Bool.and_eq_true_iff.mp h).1] at hc
    exact absurd hc List.not_mem_nil

namespace Sample

/-- The `f` is used, and the name that is missing is not. -/
theorem references_program :
    ParseTree.Sample.program.Nests ∧
      (∀ n ∈ ParseTree.Sample.program.nodes, isReference n = true → n.children = []) ∧
      referencesWithin (Program.mk "let = 1; f(".toList ParseTree.Sample.program).references ['f']
        ParseTree.Sample.call = 1 := by
  have hempty : ∀ n ∈ ParseTree.Sample.program.nodes,
      isReference n = true → n.children.isEmpty = true := by decide
  have hleaf : ∀ n ∈ ParseTree.Sample.program.nodes, isReference n = true → n.children = [] :=
    fun n hn hr => List.isEmpty_iff.mp (hempty n hn hr)
  have hcall : ParseTree.Sample.call ∈ ParseTree.Sample.program.nodes :=
    mem_nodes_of_child (List.mem_cons_of_mem _ List.mem_cons_self) (mem_nodes_self _)
  obtain ⟨-, -, hcount⟩ := references_listed_and_counted
    (p := ⟨"let = 1; f(".toList, ParseTree.Sample.program⟩) ParseTree.Sample.nests_program hleaf
  refine ⟨ParseTree.Sample.nests_program, hleaf, ?_⟩
  rw [hcount ['f'] (by decide) ParseTree.Sample.call hcall]
  decide

end Sample
end SnippetLint.TypeScript
