import SnippetLint.Text.Position

/-! Syntax trees as results show them. -/
namespace SnippetLint

inductive SyntaxNode where
  | node (kind : String) (message : Option String) (start stop : Option Position)
      (children : List SyntaxNode)
deriving Repr

namespace SyntaxNode

def kind : SyntaxNode → String
  | node k _ _ _ _ => k

def message : SyntaxNode → Option String
  | node _ m _ _ _ => m

def start : SyntaxNode → Option Position
  | node _ _ s _ _ => s

def stop : SyntaxNode → Option Position
  | node _ _ _ e _ => e

def children : SyntaxNode → List SyntaxNode
  | node _ _ _ _ cs => cs

mutual

/-- Nodes of the tree, itself among them. -/
def size : SyntaxNode → Nat
  | node _ _ _ _ cs => 1 + sizeOfAll cs

def sizeOfAll : List SyntaxNode → Nat
  | [] => 0
  | n :: ns => n.size + sizeOfAll ns

end

mutual

/-- Levels of the tree; a leaf has one. -/
def depth : SyntaxNode → Nat
  | node _ _ _ _ cs => 1 + depthOfAll cs

def depthOfAll : List SyntaxNode → Nat
  | [] => 0
  | n :: ns => max n.depth (depthOfAll ns)

end

mutual

/-- Every node with its level, each before those below it. -/
def levelsFrom (level : Nat) : SyntaxNode → List (Nat × SyntaxNode)
  | n@(node _ _ _ _ cs) => (level, n) :: levelsOfAll (level + 1) cs

def levelsOfAll (level : Nat) : List SyntaxNode → List (Nat × SyntaxNode)
  | [] => []
  | n :: ns => levelsFrom level n ++ levelsOfAll level ns

end

/-- The nodes with their levels; the root has level 0. -/
def levels (n : SyntaxNode) : List (Nat × SyntaxNode) := levelsFrom 0 n

theorem size_eq (n : SyntaxNode) : n.size = 1 + sizeOfAll n.children := by
  cases n
  rfl

@[simp] theorem sizeOfAll_append (ms ns : List SyntaxNode) :
    sizeOfAll (ms ++ ns) = sizeOfAll ms + sizeOfAll ns := by
  induction ms with
  | nil => simp [sizeOfAll]
  | cons m ms ih => simp [sizeOfAll, ih, Nat.add_assoc]

@[simp] theorem sizeOfAll_reverse (ns : List SyntaxNode) :
    sizeOfAll ns.reverse = sizeOfAll ns := by
  induction ns with
  | nil => rfl
  | cons n ns ih => simp [sizeOfAll, ih, Nat.add_comm]

/-- A count of nodes under way. The nodes that wait are listed with the next one first. -/
structure Counting where
  count : Nat
  waiting : List SyntaxNode

namespace Counting

/-- Counts the next node. Its children wait before the other nodes then, the last one first. -/
def next? (s : Counting) : Option Counting :=
  match s.waiting with
  | [] => none
  | n :: rest => some ⟨s.count + 1, n.children.reverse ++ rest⟩

theorem sizeOfAll_next? {s s' : Counting} (h : s.next? = some s') :
    sizeOfAll s.waiting = sizeOfAll s'.waiting + 1 := by
  obtain ⟨count, _ | ⟨n, rest⟩⟩ := s
  · nomatch h
  · obtain rfl := Option.some.inj h
    rw [sizeOfAll, sizeOfAll_append, sizeOfAll_reverse, size_eq]
    omega

/-- Counts until no node waits. -/
def run (s : Counting) : Nat :=
  match _h : s.next? with
  | none => s.count
  | some s' => s'.run
termination_by sizeOfAll s.waiting
decreasing_by
  have := sizeOfAll_next? _h
  omega

end Counting

/-- However deep the tree, its nodes are counted without recursion. -/
def nodeCount (n : SyntaxNode) : Nat := Counting.run ⟨0, [n]⟩

/-- A search for the deepest level under way. The nodes wait with their levels, the next one
first. -/
structure LevelSearch where
  deepest : Nat
  waiting : List (SyntaxNode × Nat)

namespace LevelSearch

/-- Looks at the level of the next node. Its children wait before the other nodes then, the last
one first. -/
def next? (s : LevelSearch) : Option LevelSearch :=
  match s.waiting with
  | [] => none
  | (n, level) :: rest =>
    some ⟨max s.deepest level, (n.children.map fun c => (c, level + 1)).reverse ++ rest⟩

theorem sizeOfAll_next? {s s' : LevelSearch} (h : s.next? = some s') :
    sizeOfAll (s.waiting.map Prod.fst) = sizeOfAll (s'.waiting.map Prod.fst) + 1 := by
  obtain ⟨deepest, _ | ⟨⟨n, level⟩, rest⟩⟩ := s
  · nomatch h
  · obtain rfl := Option.some.inj h
    simp only [List.map_cons, List.map_append, List.map_reverse, List.map_map, Function.comp_def,
      List.map_id', sizeOfAll, sizeOfAll_append, sizeOfAll_reverse, size_eq n]
    omega

/-- Searches until no node waits. -/
def run (s : LevelSearch) : Nat :=
  match _h : s.next? with
  | none => s.deepest
  | some s' => s'.run
termination_by sizeOfAll (s.waiting.map Prod.fst)
decreasing_by
  have := sizeOfAll_next? _h
  omega

end LevelSearch

/-- The level of the deepest node; the root has level 1. It is found without recursion too. -/
def deepestLevel (n : SyntaxNode) : Nat := LevelSearch.run ⟨0, [(n, 1)]⟩

end SyntaxNode

/-- There is no tree where the parser could not run. -/
inductive SyntaxTree where
  | ofNode (root : SyntaxNode)
  | empty
deriving Repr

namespace SyntaxTree

def root? : SyntaxTree → Option SyntaxNode
  | ofNode n => some n
  | empty => none

def isEmpty (t : SyntaxTree) : Bool := t.root?.isNone

/-- What stands in for a tree where no parser is used. -/
def placeholder : SyntaxTree :=
  .ofNode (.node "TranslationUnit" none none none [
    .node "SimpleAST"
      (some "Full syntax tree not available for this language in this environment")
      none none []])

end SyntaxTree
end SnippetLint
