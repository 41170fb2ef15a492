import SnippetLint.ParseTree.Outline
import SnippetLint.Proofs.ParseTree.Nodes
import SnippetLint.Proofs.Text.RealPosition

/-! The outline of a tree said by recursion. The table of its nodes and the nodes that wait are
at each step worth the same outline, so that what is put together at last is this one. -/
namespace SnippetLint.ParseTree

mutual

/-- The outline of a node at a level. On the last level children are left out, which the node
then says. -/
def outlineAt (source : List Char) (level : ℕ) : ParseTree → SyntaxNode
  | node l cs =>
    if maxLevels ≤ level then
      outlineLabel source l (if cs.any isShown then some omitted else missingMessage l) []
    else outlineLabel source l (missingMessage l) (outlinesAt source (level + 1) cs)

def outlinesAt (source : List Char) (level : ℕ) : List ParseTree → List SyntaxNode
  | [] => []
  | t :: ts =>
    if t.isShown then outlineAt source level t :: outlinesAt source level ts
    else outlinesAt source level ts

end

theorem outlinesAt_eq (source : List Char) (level : ℕ) (ts : List ParseTree) :
    outlinesAt source level ts = (ts.filter isShown).map (outlineAt source level) := by
  induction ts with
  | nil => rfl
  | cons t ts ih =>
    rw [outlinesAt, ih, List.filter_cons]
    split_ifs <;> rfl

theorem any_isShown (t : ParseTree) : t.children.any isShown = !t.shownChildren.isEmpty := by
  unfold shownChildren
  rw [Bool.eq_iff_iff]
  simp

/-- The two forms of a row. -/
theorem outlineAt_eq (source : List Char) (level : ℕ) (t : ParseTree) :
    t.outlineAt source level =
      if maxLevels ≤ level && !t.shownChildren.isEmpty then
        outlineLabel source t.label (some omitted) []
      else outlineLabel source t.label (missingMessage t.label)
        (t.shownChildren.map (outlineAt source (level + 1))) := by
  have hany := any_isShown t
  cases t with
  | node l cs =>
    rw [outlineAt, outlinesAt_eq]
    change cs.any isShown = _ at hany
    rw [hany]
    by_cases hl : maxLevels ≤ level
    · by_cases hc : (node l cs).shownChildren = []
      · simp [hl, hc, label]
      · simp [hl, hc, label]
    · simp [hl, label, shownChildren, children]

namespace Outline

/-- The table and the root once `n` is put under the row `above`. -/
def put (above : Option ℕ) (n : SyntaxNode) (s : Array Row × Option SyntaxNode) :
    Array Row × Option SyntaxNode :=
  match above with
  | none => (s.1, some n)
  | some slot => (s.1.modify slot (·.attach n), s.2)

/-- The table and the root once the outlines of the nodes that wait are in it, the last one put
first. -/
def settled (source : List Char) (s : Array Row × Option SyntaxNode) (pending : List Pending) :
    Array Row × Option SyntaxNode :=
  pending.foldr (fun p => put p.above (p.tree.outlineAt source p.level)) s

variable {source : List Char} {table : Array Row} {root : Option SyntaxNode} {row : Row}
  {pending : List Pending}

theorem modify_push_of_lt {α : Type} {xs : Array α} {i : ℕ} (h : i < xs.size) (x : α)
    (f : α → α) : (xs.push x).modify i f = (xs.modify i f).push x := by
  apply Array.ext
  · simp
  · intro j _ hj
    rw [Array.size_push, Array.size_modify] at hj
    rw [Array.getElem_modify, Array.getElem_push, Array.getElem_push]
    by_cases hl : j < xs.size
    · simp [hl, Array.getElem_modify]
    · have hi : i ≠ j := by omega
      simp [hl, hi]

theorem modify_push_last {α : Type} (xs : Array α) (x : α) (f : α → α) :
    (xs.push x).modify xs.size f = xs.push (f x) := by
  apply Array.ext
  · simp
  · intro j _ hj
    rw [Array.size_push] at hj
    rw [Array.getElem_modify, Array.getElem_push, Array.getElem_push]
    by_cases hl : j < xs.size
    · have hi : xs.size ≠ j := by omega
      simp [hl, hi]
    · have hi : xs.size = j := by omega
      simp [hi]

theorem assemble_empty : assemble source #[] root = some root := by
  rw [assemble.eq_def]
  rfl

theorem assemble_push (h : ∀ slot ∈ row.above, slot < table.size) :
    assemble source (table.push row) root =
      assemble source (put row.above (row.close source) (table, root)).1
        (put row.above (row.close source) (table, root)).2 := by
  rw [assemble.eq_def]
  split
  · rename_i hb
    rw [Array.back?_push] at hb
    exact absurd hb (Option.some_ne_none row)
  · rename_i last hb
    rw [Array.back?_push] at hb
    obtain rfl := Option.some.inj hb
    rw [Array.pop_push]
    cases ha : row.above with
    | none => rfl
    | some slot =>
      dsimp only
      rw [if_pos (h slot ha)]
      rfl

theorem size_put (above : Option ℕ) (n : SyntaxNode) (s : Array Row × Option SyntaxNode) :
    (put above n s).1.size = s.1.size := by
  cases above with
  | none => rfl
  | some slot => exact Array.size_modify

/-- The last row is left alone by a node that belongs under another. -/
theorem put_push {above : Option ℕ} (h : ∀ slot ∈ above, slot < table.size) (n : SyntaxNode) :
    put above n (table.push row, root) =
      ((put above n (table, root)).1.push row, (put above n (table, root)).2) := by
  cases above with
  | none => rfl
  | some slot =>
    unfold put
    dsimp only
    rw [modify_push_of_lt (h slot rfl)]

theorem settled_cons (s : Array Row × Option SyntaxNode) (p : Pending) (rest : List Pending) :
    settled source s (p :: rest) =
      put p.above (p.tree.outlineAt source p.level) (settled source s rest) := rfl

theorem settled_append (s : Array Row × Option SyntaxNode) (before rest : List Pending) :
    settled source s (before ++ rest) = settled source (settled source s rest) before :=
  List.foldr_append

theorem size_settled (s : Array Row × Option SyntaxNode) (pending : List Pending) :
    (settled source s pending).1.size = s.1.size := by
  induction pending with
  | nil => rfl
  | cons p rest ih => rw [settled_cons, size_put, ih]

theorem settled_push (h : ∀ p ∈ pending, ∀ slot ∈ p.above, slot < table.size) :
    settled source (table.push row, root) pending =
      ((settled source (table, root) pending).1.push row,
        (settled source (table, root) pending).2) := by
  induction pending with
  | nil => rfl
  | cons p rest ih =>
    have hrest := ih fun q hq => h q (List.mem_cons_of_mem p hq)
    have hp : ∀ slot ∈ p.above, slot < (settled source (table, root) rest).1.size := by
      rw [size_settled]
      exact h p List.mem_cons_self
    rw [settled_cons, settled_cons, hrest, put_push hp]

/-- The children of the last row come under it from the last to the first. -/
theorem settled_children (cs : List ParseTree) (level : ℕ) :
    settled source (table.push row, root) (cs.map fun c => ⟨c, some table.size, level⟩) =
      (table.push { row with
        below := row.below ++ (cs.map (outlineAt source level)).reverse.toArray }, root) := by
  induction cs with
  | nil => simp [settled]
  | cons c cs ih =>
    rw [List.map_cons, settled_cons, ih]
    unfold put
    dsimp only
    rw [modify_push_last]
    simp [Row.attach]

/-- Adding rows keeps what the table and the nodes that wait are worth. -/
theorem assemble_addRows (h : ∀ p ∈ pending, ∀ slot ∈ p.above, slot < table.size) :
    assemble source (addRows table pending) root =
      assemble source (settled source (table, root) pending).1
        (settled source (table, root) pending).2 := by
  fun_induction addRows table pending with
  | case1 => rfl
  | case2 table p rest hcut ih =>
    have hrest : ∀ q ∈ rest, ∀ slot ∈ q.above, slot < table.size :=
      fun q hq => h q (List.mem_cons_of_mem p hq)
    have hp : ∀ slot ∈ p.above, slot < (settled source (table, root) rest).1.size := by
      rw [size_settled]
      exact h p List.mem_cons_self
    have hnext : ∀ q ∈ rest, ∀ slot ∈ q.above, slot < (table.push
        { label := p.tree.label, message := some omitted, above := p.above : Row }).size := by
      intro q hq slot hs
      rw [Array.size_push]
      exact Nat.lt_succ_of_lt (hrest q hq slot hs)
    have hclose : Row.close source
        { label := p.tree.label, message := some omitted, above := p.above } =
          p.tree.outlineAt source p.level := by
      rw [outlineAt_eq, if_pos hcut]
      rfl
    rw [ih hnext, settled_push hrest, assemble_push hp, hclose, settled_cons]
  | case3 table p rest hcut ih =>
    have hrest : ∀ q ∈ rest, ∀ slot ∈ q.above, slot < table.size :=
      fun q hq => h q (List.mem_cons_of_mem p hq)
    have hsize : (settled source (table, root) rest).1.size = table.size := size_settled _ rest
    have hp : ∀ slot ∈ p.above, slot < (settled source (table, root) rest).1.size := by
      rw [hsize]
      exact h p List.mem_cons_self
    have hnext : ∀ q ∈ p.tree.shownChildren.map (fun c => ⟨c, some table.size, p.level + 1⟩) ++
        rest, ∀ slot ∈ q.above, slot < (table.push
          { label := p.tree.label, message := missingMessage p.tree.label,
            above := p.above : Row }).size := by
      intro q hq slot hs
      rw [Array.size_push]
      rcases List.mem_append.mp hq with hq | hq
      · obtain ⟨c, -, rfl⟩ := List.mem_map.mp hq
        obtain rfl : table.size = slot := Option.some.inj hs
        exact Nat.lt_succ_self _
      · exact Nat.lt_succ_of_lt (hrest q hq slot hs)
    have hclose : Row.close source
        { label := p.tree.label, message := missingMessage p.tree.label, above := p.above,
          below := #[] ++ (p.tree.shownChildren.map
            (outlineAt source (p.level + 1))).reverse.toArray } =
          p.tree.outlineAt source p.level := by
      rw [outlineAt_eq, if_neg hcut]
      simp [Row.close]
    rw [ih hnext, settled_append, settled_push hrest]
    rw [← show (settled source (table, root) rest).1.size = table.size from hsize,
      settled_children, assemble_push hp, hclose, settled_cons]

end Outline

/-- Putting the table together never misses a row and ends with the root. -/
theorem assemble_outlineTable (source : List Char) (t : ParseTree) :
    Outline.assemble source t.outlineTable none = some (some (t.outlineAt source 1)) := by
  unfold outlineTable
  rw [Outline.assemble_addRows (by simp)]
  exact Outline.assemble_empty

theorem outline_eq (source : List Char) (t : ParseTree) :
    t.outline source = t.outlineAt source 1 := by
  unfold outline
  rw [assemble_outlineTable]
  rfl

mutual

/-- Levels of the tree of the nodes that are shown; a leaf has one. -/
def shownDepth : ParseTree → ℕ
  | node _ cs => 1 + shownDepthOfAll cs

def shownDepthOfAll : List ParseTree → ℕ
  | [] => 0
  | t :: ts => if t.isShown then max t.shownDepth (shownDepthOfAll ts) else shownDepthOfAll ts

end

theorem depthOfAll_outlinesAt {source : List Char} {level n : ℕ} {ts : List ParseTree}
    (h : ∀ t ∈ ts, (t.outlineAt source level).depth = min n t.shownDepth) :
    SyntaxNode.depthOfAll (outlinesAt source level ts) = min n (shownDepthOfAll ts) := by
  induction ts with
  | nil => exact (Nat.min_zero n).symm
  | cons t ts ih =>
    have hts := ih fun u hu => h u (List.mem_cons_of_mem t hu)
    have ht := h t List.mem_cons_self
    rw [outlinesAt, shownDepthOfAll]
    split_ifs
    · rw [SyntaxNode.depthOfAll, ht, hts]
      omega
    · exact hts

theorem depth_outlineLabel (source : List Char) (l : NodeLabel) (message : Option String)
    (ns : List SyntaxNode) :
    (outlineLabel source l message ns).depth = 1 + SyntaxNode.depthOfAll ns := by
  unfold outlineLabel
  rw [SyntaxNode.depth]

theorem depth_outlineAt (source : List Char) (t : ParseTree) {level : ℕ}
    (h : level ≤ maxLevels) :
    (t.outlineAt source level).depth = min (maxLevels - level + 1) t.shownDepth := by
  induction t using induction_on_children generalizing level with
  | h l cs ih =>
    rw [outlineAt, shownDepth]
    by_cases hl : maxLevels ≤ level
    · rw [if_pos hl, depth_outlineLabel, SyntaxNode.depthOfAll]
      omega
    · have hcs : ∀ c ∈ cs, (c.outlineAt source (level + 1)).depth =
          min (maxLevels - level) c.shownDepth := by
        intro c hc
        rw [ih c hc (by omega)]
        congr 1
        omega
      rw [if_neg hl, depth_outlineLabel, depthOfAll_outlinesAt hcs]
      omega

end SnippetLint.ParseTree

namespace SnippetLint.SyntaxNode

/-- At each node start and stop are positions of the text in their order, between them stand those
of the children, and one child ends before the next one starts. -/
inductive WellPlaced (text : List Char) : SyntaxNode → Prop
  | intro {kind : String} {message : Option String} {a b : Position} {ns : List SyntaxNode}
      (start_real : a.IsReal text) (stop_real : b.IsReal text) (span : a ≤ b)
      (inside : ∀ n ∈ ns, ∃ c d, n.start = some c ∧ n.stop = some d ∧ a ≤ c ∧ d ≤ b)
      (ordered : ns.Pairwise fun m n => ∀ d ∈ m.stop, ∀ c ∈ n.start, d ≤ c)
      (children : ∀ n ∈ ns, WellPlaced text n) :
      WellPlaced text (.node kind message (some a) (some b) ns)

end SnippetLint.SyntaxNode

namespace SnippetLint.ParseTree

theorem start_outlineAt (source : List Char) (level : ℕ) (t : ParseTree) :
    (t.outlineAt source level).start = some (.ofByte source t.start) := by
  rw [outlineAt_eq]
  split_ifs <;> rfl

theorem stop_outlineAt (source : List Char) (level : ℕ) (t : ParseTree) :
    (t.outlineAt source level).stop = some (.ofByte source t.stop) := by
  rw [outlineAt_eq]
  split_ifs <;> rfl

theorem Nests.wellPlaced {t : ParseTree} (h : t.Nests) (source : List Char) (level : ℕ) :
    (t.outlineAt source level).WellPlaced source := by
  induction h generalizing level with
  | @intro l cs span inside ordered _ ih =>
    have hmono := Position.ofByte_mono source
    have hspan := hmono span
    have hcs : outlinesAt source (level + 1) cs =
        (cs.filter isShown).map (outlineAt source (level + 1)) := outlinesAt_eq _ _ _
    rw [outlineAt]
    by_cases hl : maxLevels ≤ level
    · rw [if_pos hl]
      exact .intro (Position.isReal_ofByte _ _) (Position.isReal_ofByte _ _) hspan
        (fun n hn => absurd hn List.not_mem_nil) .nil (fun n hn => absurd hn List.not_mem_nil)
    · rw [if_neg hl]
      refine .intro (Position.isReal_ofByte _ _) (Position.isReal_ofByte _ _) hspan ?_ ?_ ?_
      · intro n hn
        rw [hcs] at hn
        obtain ⟨c, hc, rfl⟩ := List.mem_map.mp hn
        obtain ⟨hstart, hstop⟩ := inside c (List.mem_filter.mp hc).1
        exact ⟨_, _, start_outlineAt _ _ c, stop_outlineAt _ _ c, hmono hstart, hmono hstop⟩
      · rw [hcs, List.pairwise_map]
        refine (ordered.filter _).imp fun {c d} hcd => ?_
        rw [start_outlineAt, stop_outlineAt]
        rintro _ ⟨⟩ _ ⟨⟩
        exact hmono hcd
      · intro n hn
        rw [hcs] at hn
        obtain ⟨c, hc, rfl⟩ := List.mem_map.mp hn
        exact ih c (List.mem_filter.mp hc).1 (level + 1)

end SnippetLint.ParseTree
