import Mathlib.Algebra.BigOperators.Group.List.Basic
import SnippetLint.Proofs.ParseTree.Outline
import SnippetLint.Proofs.ParseTree.Sites
import SnippetLint.Proofs.SyntaxTree.Counting

/-! How many nodes an outline has. A node of the parse tree is in it if it is kept, with all nodes
above it, and is on no level below the last. -/
namespace SnippetLint.ParseTree

namespace Site

/-- The root has level 1. -/
def level (s : Site) : ℕ := s.above.length + 1

/-- The root is kept, and any other node that is shown below one that is kept. -/
def isKept (s : Site) : Bool := (s.tree :: s.above).dropLast.all isShown

/-- Kept on one of the levels that an outline has. -/
def inOutline (s : Site) : Bool := s.isKept && s.level ≤ maxLevels

theorem inOutline_iff {s : Site} :
    s.inOutline = true ↔ s.isKept = true ∧ s.level ≤ maxLevels := by
  rw [inOutline, Bool.and_eq_true, decide_eq_true_eq]

theorem inOutline_root (t : ParseTree) : inOutline ⟨t, []⟩ = true := rfl

theorem inOutline_below_iff {c t : ParseTree} {above : List ParseTree} :
    inOutline ⟨c, t :: above⟩ = true ↔
      c.isShown = true ∧ inOutline ⟨t, above⟩ = true ∧ above.length + 1 < maxLevels := by
  have hkept : isKept ⟨c, t :: above⟩ = (c.isShown && isKept ⟨t, above⟩) := rfl
  have hlevel : level ⟨c, t :: above⟩ = level ⟨t, above⟩ + 1 := rfl
  rw [inOutline_iff, inOutline_iff, hkept, hlevel, Bool.and_eq_true]
  constructor
  · rintro ⟨⟨hc, ht⟩, hlast⟩
    exact ⟨hc, ⟨ht, Nat.le_of_succ_le hlast⟩, hlast⟩
  · rintro ⟨hc, ⟨ht, -⟩, hlast⟩
    exact ⟨⟨hc, ht⟩, hlast⟩

end Site

open Site (inOutline inOutline_root inOutline_below_iff)

variable {source : List Char} {level : ℕ} {above ts : List ParseTree} {t : ParseTree}

theorem countP_sitesUnder (p : Site → Bool) (above : List ParseTree) (t : ParseTree) :
    (sitesUnder above t).countP p = (if p ⟨t, above⟩ = true then 1 else 0) +
      (t.children.map fun c => (sitesUnder (t :: above) c).countP p).sum := by
  cases t with
  | node l cs =>
    rw [sitesUnder, List.countP_cons, sitesOfAll_eq, List.countP_flatMap, Nat.add_comm]
    rfl

/-- A node of the outline has nodes of the outline above it. -/
theorem inOutline_of_mem_sitesUnder {s : Site} (hs : s ∈ sitesUnder above t)
    (h : s.inOutline = true) : inOutline ⟨t, above⟩ = true := by
  induction t using induction_on_children generalizing above with
  | h l cs ih =>
    rcases mem_sitesUnder.mp hs with rfl | ⟨c, hc, hs⟩
    · exact h
    · exact (inOutline_below_iff.mp (ih c hc hs)).2.1

theorem countP_inOutline_eq_zero (h : ¬inOutline ⟨t, above⟩ = true) :
    (sitesUnder above t).countP inOutline = 0 :=
  List.countP_eq_zero.mpr fun _ hs hin => h (inOutline_of_mem_sitesUnder hs hin)

theorem size_outlineLabel (source : List Char) (l : NodeLabel) (message : Option String)
    (ns : List SyntaxNode) :
    (outlineLabel source l message ns).size = 1 + SyntaxNode.sizeOfAll ns :=
  SyntaxNode.size_eq _

theorem sizeOfAll_outlinesAt {f : ParseTree → ℕ}
    (h : ∀ t ∈ ts, f t = if t.isShown = true then (t.outlineAt source level).size else 0) :
    SyntaxNode.sizeOfAll (outlinesAt source level ts) = (ts.map f).sum := by
  induction ts with
  | nil => rfl
  | cons t ts ih =>
    have hts := ih fun u hu => h u (List.mem_cons_of_mem t hu)
    have ht := h t List.mem_cons_self
    rw [outlinesAt, List.map_cons, List.sum_cons, ht, ← hts]
    split_ifs
    · rfl
    · rw [Nat.zero_add]

theorem size_outlineAt (source : List Char) (h : inOutline ⟨t, above⟩ = true) :
    (t.outlineAt source (above.length + 1)).size = (sitesUnder above t).countP inOutline := by
  induction t using induction_on_children generalizing above with
  | h l cs ih =>
    -- below a child there is something to count only if the child is in the outline itself
    have hcs : ∀ c ∈ cs, (sitesUnder (node l cs :: above) c).countP inOutline =
        if c.isShown = true ∧ above.length + 1 < maxLevels then
          (c.outlineAt source (above.length + 1 + 1)).size else 0 := by
      intro c hc
      split_ifs with hc'
      · exact (ih c hc (inOutline_below_iff.mpr ⟨hc'.1, h, hc'.2⟩)).symm
      · refine countP_inOutline_eq_zero fun hbelow => hc' ?_
        obtain ⟨hshown, -, hlast⟩ := inOutline_below_iff.mp hbelow
        exact ⟨hshown, hlast⟩
    rw [countP_sitesUnder, if_pos h, outlineAt]
    by_cases hl : maxLevels ≤ above.length + 1
    · rw [if_pos hl, size_outlineLabel]
      refine congrArg (1 + ·) (List.sum_eq_zero fun k hk => ?_).symm
      obtain ⟨c, hc, rfl⟩ := List.mem_map.mp hk
      rw [hcs c hc, if_neg fun hc' => Nat.not_lt.mpr hl hc'.2]
    · rw [if_neg hl, size_outlineLabel]
      refine congrArg (1 + ·) (sizeOfAll_outlinesAt fun c hc => ?_)
      simp only [hcs c hc, Nat.lt_of_not_le hl, and_true]

open SyntaxNode in
/-- The count of the nodes of a tree and the search for its deepest level both end after as many
turns as there are nodes, with the number that recursion over the children gives. For an outline
this is the number of nodes of the parse tree that are kept and on no level below the last. -/
theorem nodes_and_levels_counted :
    (∀ n : SyntaxNode,
      EndsAfter Counting.next? n.size ⟨0, [n]⟩ ⟨n.nodeCount, []⟩ ∧
      n.nodeCount = n.size ∧
      n.size = 1 + (n.children.map SyntaxNode.size).sum ∧
      EndsAfter LevelSearch.next? n.size ⟨0, [(n, 1)]⟩ ⟨n.deepestLevel, []⟩ ∧
      n.deepestLevel = n.depth ∧
      n.depth = 1 + (n.children.map depth).foldr max 0) ∧
    ∀ source t, (outline source t).nodeCount =
      t.sites.countP fun s => s.isKept && s.level ≤ maxLevels := by
  refine ⟨fun n => ⟨?_, nodeCount_eq_size n, size_eq_sum n, ?_, deepestLevel_eq_depth n,
    depth_eq_foldr n⟩, fun source t => ?_⟩
  · have hcount := Counting.endsAfter ⟨0, [n]⟩
    rwa [← Counting.run_eq_total] at hcount
  · have hsearch := LevelSearch.endsAfter ⟨0, [(n, 1)]⟩
    rwa [← LevelSearch.run_eq_total] at hsearch
  · rw [nodeCount_eq_size, outline_eq]
    exact size_outlineAt source (inOutline_root t)

-- the four tokens are left out, and what is missing is not
example : Sample.program.sites.countP inOutline = 8 := by decide

end SnippetLint.ParseTree
