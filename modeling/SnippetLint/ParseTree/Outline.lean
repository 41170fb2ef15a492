import SnippetLint.ParseTree.Basic
import SnippetLint.SyntaxTree

/-! The part of a parse tree that results show: named, error and missing nodes with their
positions, down to a fixed level. However deep the tree, it is made without recursion: first
a table of the nodes, each after the one above it, then from the back of the table each node is
put under the one above it. -/
namespace SnippetLint.ParseTree

/-- Levels that an outline has at most. -/
def maxLevels : Nat := 256

def omitted : String := "children omitted below depth " ++ toString maxLevels

def isShown (t : ParseTree) : Bool := t.named || t.isIssue

def shownChildren (t : ParseTree) : List ParseTree := t.children.filter isShown

/-- A node without its children. -/
def outlineLabel (source : List Char) (l : NodeLabel) (message : Option String)
    (children : List SyntaxNode) : SyntaxNode :=
  .node l.kind message (some (Position.ofByte source l.start))
    (some (Position.ofByte source l.stop)) children

def missingMessage (l : NodeLabel) : Option String :=
  if l.isMissing then some ("missing " ++ l.kind) else none

namespace Outline

/-- A row of the table. `above` is the row of the node above, and `below` has the children that
are put together already, the last one first. -/
structure Row where
  label : NodeLabel
  message : Option String
  above : Option Nat
  below : Array SyntaxNode := #[]

namespace Row

def attach (r : Row) (n : SyntaxNode) : Row := { r with below := r.below.push n }

def close (source : List Char) (r : Row) : SyntaxNode :=
  outlineLabel source r.label r.message r.below.toList.reverse

end Row

/-- A node that waits for its row; the root has level 1. -/
structure Pending where
  tree : ParseTree
  above : Option Nat
  level : Nat

/-- Adds the rows of the nodes that wait, the next one first, and of those below them. -/
def addRows (table : Array Row) : List Pending → Array Row
  | [] => table
  | p :: rest =>
    if maxLevels ≤ p.level && !p.tree.shownChildren.isEmpty then
      addRows (table.push { label := p.tree.label, message := some omitted, above := p.above })
        rest
    else
      addRows (table.push
          { label := p.tree.label, message := missingMessage p.tree.label, above := p.above })
        (p.tree.shownChildren.map (fun c => ⟨c, some table.size, p.level + 1⟩) ++ rest)
termination_by pending => sizeOfAll (pending.map Pending.tree)
decreasing_by
  · simp only [List.map_cons, sizeOfAll, size_eq p.tree]
    omega
  · have := sizeOfAll_filter_le isShown p.tree.children
    simp [sizeOfAll, size_eq p.tree, shownChildren, Function.comp_def]
    omega

/-- Takes row after row from the back. A row with none above it becomes the root; there is no
result where the row above is not in the table any more. -/
def assemble (source : List Char) (table : Array Row) (root : Option SyntaxNode) :
    Option (Option SyntaxNode) :=
  match _h : table.back? with
  | none => some root
  | some row =>
    match row.above with
    | none => assemble source table.pop (some (row.close source))
    | some slot =>
      if slot < table.pop.size then
        assemble source (table.pop.modify slot (·.attach (row.close source))) root
      else none
termination_by table.size
decreasing_by
  all_goals
    obtain ⟨rows, rfl⟩ := Array.back?_eq_some_iff.1 _h
    simp

end Outline

/-- The table of all nodes that are shown. -/
def outlineTable (t : ParseTree) : Array Outline.Row := Outline.addRows #[] [⟨t, none, 1⟩]

/-- The bare node stands in for a root that is not found. -/
def outline (source : List Char) (t : ParseTree) : SyntaxNode :=
  (Outline.assemble source t.outlineTable none).join.getD (.node t.kind none none none [])

end SnippetLint.ParseTree
