import Mathlib.Algebra.Order.Ring.Nat
import SnippetLint.SyntaxTree

/-! The number of nodes and the number of levels of a syntax tree, by recursion and with a list of
the nodes that wait. What is found already together with what is still to be found below those
nodes stays the same from turn to turn, and a turn leaves one node less. So there are as many
turns as nodes, and at the end stands the number that recursion gives. -/
namespace SnippetLint

/-- From `s` on there are `k` turns, and none at `f`, which is where they lead. -/
inductive EndsAfter {σ : Type} (next? : σ → Option σ) : ℕ → σ → σ → Prop
  | stop {s : σ} (h : next? s = none) : EndsAfter next? 0 s s
  | turn {k : ℕ} {s s' f : σ} (h : next? s = some s') (rest : EndsAfter next? k s' f) :
      EndsAfter next? (k + 1) s f

/-- Where each turn leaves one less to do and `value` as it was, there are as many turns as there
is to do, and they lead to where `value` alone is left. -/
theorem EndsAfter.of_kept {σ α : Type} {next? : σ → Option σ} (left : σ → ℕ) {value : σ → α}
    (final : α → σ) (hturn : ∀ s s', next? s = some s' → left s = left s' + 1)
    (hkept : ∀ s s', next? s = some s' → value s = value s')
    (hleft : ∀ a, left (final a) = 0) (hstop : ∀ s, next? s = none → s = final (value s)) (s : σ) :
    EndsAfter next? (left s) s (final (value s)) := by
  -- by what is left, as the states themselves do not get smaller
  generalize hk : left s = k
  induction k generalizing s with
  | zero =>
    cases hs : next? s with
    | none =>
      rw [← hstop s hs]
      exact .stop hs
    | some s' =>
      have := hturn s s' hs
      omega
  | succ k ih =>
    cases hs : next? s with
    | none =>
      have := hleft (value s)
      rw [← hstop s hs] at this
      omega
    | some s' =>
      have hk' : left s' = k := Nat.succ.inj ((hturn s s' hs).symm.trans hk)
      rw [hkept s s' hs]
      exact .turn hs (ih s' hk')

namespace SyntaxNode

/-! ### Recursion over the children -/

theorem sizeOfAll_eq_sum (ns : List SyntaxNode) : sizeOfAll ns = (ns.map size).sum := by
  induction ns with
  | nil => rfl
  | cons n ns ih => rw [sizeOfAll, ih, List.map_cons, List.sum_cons]

theorem size_eq_sum (n : SyntaxNode) : n.size = 1 + (n.children.map size).sum := by
  rw [size_eq, sizeOfAll_eq_sum]

theorem depth_eq (n : SyntaxNode) : n.depth = 1 + depthOfAll n.children := by
  cases n
  rfl

theorem depthOfAll_eq_foldr (ns : List SyntaxNode) :
    depthOfAll ns = (ns.map depth).foldr max 0 := by
  induction ns with
  | nil => rfl
  | cons n ns ih => rw [depthOfAll, ih, List.map_cons, List.foldr_cons]

theorem depth_eq_foldr (n : SyntaxNode) : n.depth = 1 + (n.children.map depth).foldr max 0 := by
  rw [depth_eq, depthOfAll_eq_foldr]

/-! ### The count -/

namespace Counting
variable {s s' : Counting}

/-- The nodes that are counted and those that are still to be counted. -/
def total (s : Counting) : ℕ := s.count + sizeOfAll s.waiting

theorem total_next? (h : s.next? = some s') : s.total = s'.total := by
  obtain ⟨count, _ | ⟨n, rest⟩⟩ := s
  · nomatch h
  · obtain rfl := Option.some.inj h
    simp only [total, sizeOfAll, sizeOfAll_append, sizeOfAll_reverse, size_eq n]
    omega

theorem eq_of_next?_eq_none (h : s.next? = none) : s = ⟨s.total, []⟩ := by
  obtain ⟨count, _ | ⟨n, rest⟩⟩ := s
  · rfl
  · nomatch h

theorem endsAfter (s : Counting) : EndsAfter next? (sizeOfAll s.waiting) s ⟨s.total, []⟩ :=
  EndsAfter.of_kept (fun s => sizeOfAll s.waiting) (fun n => ⟨n, []⟩)
    (fun _ _ => sizeOfAll_next?) (fun _ _ => total_next?) (fun _ => rfl)
    (fun _ => eq_of_next?_eq_none) s

theorem run_eq_total (s : Counting) : s.run = s.total := by
  fun_induction run s with
  | case1 s h => exact congrArg count (eq_of_next?_eq_none h)
  | case2 s s' h ih => exact ih.trans (total_next? h).symm

end Counting

theorem nodeCount_eq_size (n : SyntaxNode) : n.nodeCount = n.size := by
  rw [nodeCount, Counting.run_eq_total, Counting.total, sizeOfAll, sizeOfAll, Nat.zero_add,
    Nat.add_zero]

/-! ### The deepest level -/

theorem foldr_max_append (ms ns : List ℕ) :
    (ms ++ ns).foldr max 0 = max (ms.foldr max 0) (ns.foldr max 0) := by
  induction ms with
  | nil => exact (Nat.zero_max _).symm
  | cons m ms ih => rw [List.cons_append, List.foldr_cons, ih, List.foldr_cons, Nat.max_assoc]

theorem foldr_max_reverse (ns : List ℕ) : ns.reverse.foldr max 0 = ns.foldr max 0 := by
  induction ns with
  | nil => rfl
  | cons n ns ih =>
    rw [List.reverse_cons, foldr_max_append, ih, Nat.max_comm, List.foldr_cons, List.foldr_nil,
      Nat.max_zero, List.foldr_cons]

namespace LevelSearch
variable {s s' : LevelSearch}

/-- The deepest level at or below a node that waits. -/
def reach : SyntaxNode × ℕ → ℕ
  | (n, level) => level + depthOfAll n.children

theorem max_foldr_reach (ns : List SyntaxNode) (level : ℕ) :
    max level ((ns.map fun n => reach (n, level + 1)).foldr max 0) = level + depthOfAll ns := by
  induction ns with
  | nil => exact Nat.max_zero level
  | cons n ns ih =>
    rw [List.map_cons, List.foldr_cons, depthOfAll, depth_eq, reach]
    omega

/-- The deepest level that is found or still to be found. -/
def total (s : LevelSearch) : ℕ := max s.deepest ((s.waiting.map reach).foldr max 0)

theorem total_next? (h : s.next? = some s') : s.total = s'.total := by
  obtain ⟨deepest, _ | ⟨⟨n, level⟩, rest⟩⟩ := s
  · nomatch h
  · obtain rfl := Option.some.inj h
    have hbelow : reach (n, level) =
        max level ((n.children.map fun c => reach (c, level + 1)).foldr max 0) :=
      (max_foldr_reach n.children level).symm
    simp only [total, List.map_cons, List.foldr_cons, List.map_append, List.map_reverse,
      List.map_map, Function.comp_def, foldr_max_append, foldr_max_reverse, hbelow, Nat.max_assoc]

theorem eq_of_next?_eq_none (h : s.next? = none) : s = ⟨s.total, []⟩ := by
  obtain ⟨deepest, _ | ⟨p, rest⟩⟩ := s
  · rw [total, List.map_nil, List.foldr_nil, Nat.max_zero]
  · nomatch h

theorem endsAfter (s : LevelSearch) :
    EndsAfter next? (sizeOfAll (s.waiting.map Prod.fst)) s ⟨s.total, []⟩ :=
  EndsAfter.of_kept (fun s => sizeOfAll (s.waiting.map Prod.fst)) (fun level => ⟨level, []⟩)
    (fun _ _ => sizeOfAll_next?) (fun _ _ => total_next?) (fun _ => rfl)
    (fun _ => eq_of_next?_eq_none) s

theorem run_eq_total (s : LevelSearch) : s.run = s.total := by
  fun_induction run s with
  | case1 s h => exact congrArg deepest (eq_of_next?_eq_none h)
  | case2 s s' h ih => exact ih.trans (total_next? h).symm

end LevelSearch

theorem deepestLevel_eq_depth (n : SyntaxNode) : n.deepestLevel = n.depth := by
  rw [deepestLevel, LevelSearch.run_eq_total, LevelSearch.total, depth_eq, List.map_cons,
    List.map_nil, List.foldr_cons, List.foldr_nil, Nat.zero_max, Nat.max_zero, LevelSearch.reach]

end SyntaxNode
end SnippetLint
