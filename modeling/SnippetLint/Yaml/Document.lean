import SnippetLint.Yaml.Spot
import SnippetLint.Yaml.Tag

/-! Documents, their nodes, and what can be asked of these. A scalar may stand for a number or a
truth value. -/
namespace SnippetLint.Yaml

/-- The number of a nonempty run of digits below `base`, if a word of 64 bits holds it. -/
def word64InBase? (base : Nat) (cs : List Char) : Option Nat := do
  let digits ← cs.mapM hexDigit?
  let n := digits.foldl (base * · + ·) 0
  if cs ≠ [] ∧ digits.all (· < base) ∧ n < UInt64.size then some n else none

/-- A plus sign may stand before the number, and `0x`, `0o` or `0b` after it tell its base. No
decimal number begins with a zero but zero itself. -/
def word64? (text : List Char) : Option Nat :=
  match if text.head? = some '+' then text.tail else text with
  | '0' :: 'x' :: cs => word64InBase? 16 cs
  | '0' :: 'o' :: cs => word64InBase? 8 cs
  | '0' :: 'b' :: cs => word64InBase? 2 cs
  | ['0'] => some 0
  | '0' :: _ => none
  | cs => word64InBase? 10 cs

def bool? (text : String) : Option Bool :=
  if ["true", "True", "TRUE"].contains text then some true
  else if ["false", "False", "FALSE"].contains text then some false
  else none

inductive Node where
  | scalar (style : Style) (tag text : String)
  | sequence (items : List Node)
  | mapping (pairs : List (Node × Node))
  /-- A node with an anchor. Anchors go by numbers. -/
  | anchored (number : Nat) (node : Node)
  /-- The node of the anchor with that number. -/
  | alias (number : Nat)
deriving Repr, Inhabited

namespace Node

/-- What stands where nothing is written. -/
def empty : Node := .scalar .plain "" ""

mutual

/-- The nodes with anchors, each before those inside it. -/
def anchors : Node → List (Nat × Node)
  | .scalar .. => []
  | .sequence items => anchorsOfItems items
  | .mapping pairs => anchorsOfPairs pairs
  | .anchored number node => (number, node) :: anchors node
  | .alias _ => []

def anchorsOfItems : List Node → List (Nat × Node)
  | [] => []
  | n :: ns => anchors n ++ anchorsOfItems ns

def anchorsOfPairs : List (Node × Node) → List (Nat × Node)
  | [] => []
  | (k, v) :: ps => anchors k ++ anchors v ++ anchorsOfPairs ps

end

end Node

/-- A document may have no node at all. -/
structure Document where
  root? : Option Node

namespace Document

/-- The node of an anchor, the last one if several go by its number. -/
def anchored? (d : Document) (number : Nat) : Option Node :=
  d.root?.bind fun root => root.anchors.reverse.lookup number

/-- The node itself, past its anchor, or the one that it is an alias of. -/
def resolve? (d : Document) : Node → Option Node
  | .anchored _ node => some node
  | .alias number => d.anchored? number
  | node => some node

/-- Whether the text of a scalar is read for more than text: if it is plain, or if it is a literal
block with the tag of what is asked for. -/
def isTyped (style : Style) (tag kind : String) : Bool :=
  style == .plain || (style == .literal && tag == "tag:yaml.org,2002:" ++ kind)

def string? (d : Document) (n : Node) : Option String := do
  match ← d.resolve? n with
  | .scalar _ _ text => some text
  | _ => none

def nat? (d : Document) (n : Node) : Option Nat := do
  match ← d.resolve? n with
  | .scalar style tag text => if isTyped style tag "int" then word64? text.toList else none
  | _ => none

def truth? (d : Document) (n : Node) : Option Bool := do
  match ← d.resolve? n with
  | .scalar style tag text => if isTyped style tag "bool" then bool? text else none
  | _ => none

/-- The members of a mapping, of which all keys are scalars. Nothing is an empty mapping. -/
def members? (d : Document) (n : Node) : Option (List (String × Node)) := do
  match ← d.resolve? n with
  | .mapping pairs => pairs.mapM fun p => (d.string? p.1).map (·, p.2)
  | .scalar .plain _ "" => some []
  | _ => none

def items? (d : Document) (n : Node) : Option (List Node) := do
  match ← d.resolve? n with
  | .sequence items => some items
  | .scalar .plain _ "" => some []
  | _ => none

/-- What a member holds, the default without it. It may not be there twice. -/
def member? {α : Type} (members : List (String × Node)) (name : String) (default : α)
    (read : Node → Option α) : Option α :=
  match members.filter (·.1 == name) with
  | [] => some default
  | [m] => read m.2
  | _ => none

end Document
end SnippetLint.Yaml
