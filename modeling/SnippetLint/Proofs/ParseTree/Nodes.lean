import Mathlib.Data.List.Basic
import SnippetLint.ParseTree.Basic

/-! Nodes of a parse tree, whatever stands above them or by their places in it, and trees whose
spans nest. -/
namespace SnippetLint.ParseTree

/-- What holds of a node when it holds of its children holds of every tree. -/
theorem induction_on_children {P : ParseTree → Prop}
    (h : ∀ l cs, (∀ c ∈ cs, P c) → P (.node l cs)) : ∀ t, P t
  | .node l cs => h l cs fun c hc => by
    have := List.sizeOf_lt_of_mem hc
    exact induction_on_children h c

/-- The node at a place, which says of each node on the way the number of the child to take. -/
def at? (t : ParseTree) : List ℕ → Option ParseTree
  | [] => some t
  | i :: place => t.children[i]?.bind fun c => c.at? place

/-- The span of each node holds those of its children, and these stand one after another. -/
inductive Nests : ParseTree → Prop
  | intro {l : NodeLabel} {cs : List ParseTree} (span : l.start ≤ l.stop)
      (inside : ∀ c ∈ cs, l.start ≤ c.start ∧ c.stop ≤ l.stop)
      (ordered : cs.Pairwise fun c d => c.stop ≤ d.start)
      (children : ∀ c ∈ cs, Nests c) : Nests (.node l cs)

theorem nests_leaf {l : NodeLabel} (h : l.start ≤ l.stop) : (node l []).Nests :=
  .intro h (fun _ hc => absurd hc List.not_mem_nil) .nil (fun _ hc => absurd hc List.not_mem_nil)

theorem nests_node_iff {l : NodeLabel} {cs : List ParseTree} :
    (node l cs).Nests ↔ (l.start ≤ l.stop ∧ (∀ c ∈ cs, l.start ≤ c.start ∧ c.stop ≤ l.stop) ∧
      cs.Pairwise fun c d => c.stop ≤ d.start) ∧ ∀ c ∈ cs, c.Nests := by
  constructor
  · rintro ⟨span, inside, ordered, children⟩
    exact ⟨⟨span, inside, ordered⟩, children⟩
  · rintro ⟨⟨span, inside, ordered⟩, children⟩
    exact .intro span inside ordered children

mutual

def decidableNests : (t : ParseTree) → Decidable t.Nests
  | .node _ cs =>
    have := decidableAllNest cs
    decidable_of_iff _ nests_node_iff.symm

def decidableAllNest : (ts : List ParseTree) → Decidable (∀ t ∈ ts, t.Nests)
  | [] => .isTrue (List.forall_mem_nil _)
  | t :: ts =>
    have := decidableNests t
    have := decidableAllNest ts
    decidable_of_iff _ List.forall_mem_cons.symm

end

instance : DecidablePred Nests := decidableNests

namespace Sample

/-- Lacks its name, which is missing in an error. -/
def declaration : ParseTree :=
  .node ⟨"lexical_declaration", 0, 8, true, false, false, true, none⟩ [
    .node ⟨"let", 0, 3, false, false, false, false, none⟩ [],
    .node ⟨"ERROR", 4, 5, true, true, false, true, none⟩ [
      .node ⟨"identifier", 4, 4, true, false, true, true, none⟩ [],
      .node ⟨"=", 4, 5, false, false, false, false, none⟩ []],
    .node ⟨"number", 6, 7, true, false, false, false, none⟩ [],
    .node ⟨";", 7, 8, false, false, false, false, none⟩ []]

/-- Lacks its last parenthesis. -/
def call : ParseTree :=
  .node ⟨"call_expression", 9, 11, true, false, false, true, none⟩ [
    .node ⟨"identifier", 9, 10, true, false, false, false, none⟩ [],
    .node ⟨"(", 10, 11, false, false, false, false, none⟩ [],
    .node ⟨")", 11, 11, false, false, true, true, none⟩ []]

/-- The text `let = 1; f(`. -/
def program : ParseTree :=
  .node ⟨"program", 0, 11, true, false, false, true, none⟩ [declaration, call]

theorem nests_declaration : declaration.Nests := by
  refine .intro (by decide) (by decide) (by decide) ?_
  simp only [List.forall_mem_cons, List.not_mem_nil, false_implies, implies_true, and_true]
  refine ⟨nests_leaf (by decide), ?_, nests_leaf (by decide), nests_leaf (by decide)⟩
  refine .intro (by decide) (by decide) (by decide) ?_
  simp only [List.forall_mem_cons, List.not_mem_nil, false_implies, implies_true, and_true]
  exact ⟨nests_leaf (by decide), nests_leaf (by decide)⟩

theorem nests_call : call.Nests := by
  refine .intro (by decide) (by decide) (by decide) ?_
  simp only [List.forall_mem_cons, List.not_mem_nil, false_implies, implies_true, and_true]
  exact ⟨nests_leaf (by decide), nests_leaf (by decide), nests_leaf (by decide)⟩

theorem nests_program : program.Nests := by
  refine .intro (by decide) (by decide) (by decide) ?_
  simp only [List.forall_mem_cons, List.not_mem_nil, false_implies, implies_true, and_true]
  exact ⟨nests_declaration, nests_call⟩

end Sample

/-- A tree with all nodes below it. -/
def nodes (t : ParseTree) : List ParseTree := t.sites.map Site.tree

theorem map_tree_sitesOfAll {above ts : List ParseTree}
    (h : ∀ t ∈ ts, (sitesUnder above t).map Site.tree = t.nodes) :
    (sitesOfAll above ts).map Site.tree = ts.flatMap nodes := by
  induction ts with
  | nil => rfl
  | cons t ts ih =>
    obtain ⟨ht, hts⟩ := List.forall_mem_cons.mp h
    rw [sitesOfAll, List.map_append, ht, ih hts]
    rfl

theorem map_tree_sitesUnder (above : List ParseTree) (t : ParseTree) :
    (sitesUnder above t).map Site.tree = t :: t.children.flatMap nodes := by
  induction t using induction_on_children generalizing above with
  | h l cs ih =>
    have hcs : ∀ c ∈ cs, (sitesUnder (node l cs :: above) c).map Site.tree = c.nodes :=
      fun c hc => (ih c hc _).trans (ih c hc []).symm
    rw [sitesUnder, List.map_cons, map_tree_sitesOfAll hcs]
    rfl

theorem nodes_eq (t : ParseTree) : t.nodes = t :: t.children.flatMap nodes :=
  map_tree_sitesUnder [] t

theorem mem_nodes_self (t : ParseTree) : t ∈ t.nodes := by
  rw [nodes_eq]
  exact List.mem_cons_self

theorem mem_nodes_of_child {t c n : ParseTree} (hc : c ∈ t.children) (hn : n ∈ c.nodes) :
    n ∈ t.nodes := by
  rw [nodes_eq]
  exact List.mem_cons_of_mem t (List.mem_flatMap.mpr ⟨c, hc, hn⟩)

theorem mem_nodes_trans {t s n : ParseTree} (hs : s ∈ t.nodes) (hn : n ∈ s.nodes) :
    n ∈ t.nodes := by
  induction t using induction_on_children with
  | h l cs ih =>
    rw [nodes_eq] at hs
    rcases List.mem_cons.mp hs with rfl | hs
    · exact hn
    · obtain ⟨c, hc, hs⟩ := List.mem_flatMap.mp hs
      exact mem_nodes_of_child hc (ih c hc hs)

/-- A visitor that always goes on below sees the nodes of the trees that wait one after another. -/
theorem walk_eq_foldl {α : Type} {visit : α → ParseTree → α × Bool}
    (h : ∀ seen t, (visit seen t).2 = true) (seen : α) (pending : List ParseTree) :
    walk visit seen pending =
      (pending.flatMap nodes).foldl (fun seen t => (visit seen t).1) seen := by
  fun_induction walk visit seen pending with
  | case1 => rfl
  | case2 seen t rest next hbelow ih =>
    rw [ih, List.flatMap_append, List.flatMap_cons, nodes_eq t, List.cons_append, List.foldl_cons]
  | case3 seen t rest next hnot => exact absurd (h seen t) hnot

theorem size_lt_of_child {t c : ParseTree} (hc : c ∈ t.children) : c.size < t.size := by
  obtain ⟨before, after, heq⟩ := List.append_of_mem hc
  rw [size_eq t, heq, sizeOfAll_append, sizeOfAll]
  omega

theorem size_le_of_mem_nodes {t n : ParseTree} (h : n ∈ t.nodes) : n.size ≤ t.size := by
  induction t using induction_on_children with
  | h l cs ih =>
    rw [nodes_eq] at h
    rcases List.mem_cons.mp h with rfl | h
    · exact Nat.le_refl _
    · obtain ⟨c, hc, h⟩ := List.mem_flatMap.mp h
      exact Nat.le_trans (ih c hc h) (Nat.le_of_lt (size_lt_of_child hc))

end SnippetLint.ParseTree
