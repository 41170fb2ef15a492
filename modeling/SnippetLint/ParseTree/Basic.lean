import SnippetLint.Text.Position

/-! Concrete parse trees as a grammar gives them. Reading never fails: text that no rule places is
under an error node, and a token that had to be made up is a missing node without width. -/
namespace SnippetLint

/-- What the grammar says of one node. `start` and `stop` are byte offsets, `hasError` holds of a
node that is or has below it an error or a missing node, and `field` is the role that the node has
for the one above it. -/
structure NodeLabel where
  kind : String
  start : Nat
  stop : Nat
  named : Bool
  isError : Bool
  isMissing : Bool
  hasError : Bool
  field : Option String
deriving DecidableEq, Repr

inductive ParseTree where
  | node (label : NodeLabel) (children : List ParseTree)
deriving Repr

namespace ParseTree

def label : ParseTree → NodeLabel
  | node l _ => l

def children : ParseTree → List ParseTree
  | node _ cs => cs

def kind (t : ParseTree) : String := t.label.kind

def start (t : ParseTree) : Nat := t.label.start

def stop (t : ParseTree) : Nat := t.label.stop

def named (t : ParseTree) : Bool := t.label.named

/-- An error or a missing node. -/
def isIssue (t : ParseTree) : Bool := t.label.isError || t.label.isMissing

def namedChildren (t : ParseTree) : List ParseTree := t.children.filter named

def firstNamed? (t : ParseTree) : Option ParseTree := t.namedChildren.head?

def childrenIn (field : String) (t : ParseTree) : List ParseTree :=
  t.children.filter (·.label.field == some field)

/-- The first child in the role `field`. -/
def child? (field : String) (t : ParseTree) : Option ParseTree :=
  t.children.find? (·.label.field == some field)

/-- The text of the node. -/
def text (source : List Char) (t : ParseTree) : List Char := Text.byteSlice t.start t.stop source

def firstLeaf : ParseTree → ParseTree
  | t@(node _ []) => t
  | node _ (c :: _) => c.firstLeaf

mutual

/-- Nodes of the tree, itself among them. -/
def size : ParseTree → Nat
  | node _ cs => 1 + sizeOfAll cs

def sizeOfAll : List ParseTree → Nat
  | [] => 0
  | t :: ts => t.size + sizeOfAll ts

end

theorem size_eq (t : ParseTree) : t.size = 1 + sizeOfAll t.children := by
  cases t
  rfl

@[simp] theorem sizeOfAll_append (ts us : List ParseTree) :
    sizeOfAll (ts ++ us) = sizeOfAll ts + sizeOfAll us := by
  induction ts with
  | nil => simp [sizeOfAll]
  | cons t ts ih => simp [sizeOfAll, ih, Nat.add_assoc]

@[simp] theorem sizeOfAll_reverse (ts : List ParseTree) :
    sizeOfAll ts.reverse = sizeOfAll ts := by
  induction ts with
  | nil => rfl
  | cons t ts ih => simp [sizeOfAll, ih, Nat.add_comm]

theorem sizeOfAll_filter_le (p : ParseTree → Bool) (ts : List ParseTree) :
    sizeOfAll (ts.filter p) ≤ sizeOfAll ts := by
  induction ts with
  | nil => exact Nat.le_refl _
  | cons t ts ih =>
    rw [List.filter_cons, sizeOfAll]
    split
    · exact Nat.add_le_add_left ih _
    · exact Nat.le_trans ih (Nat.le_add_left _ _)

/-- Visits the trees that wait, the next one first. `visit` tells whether the nodes below are
visited as well; they are before the trees that waited already. What is seen is put together in
`state`. -/
def walk {α : Type} (visit : α → ParseTree → α × Bool) (state : α) : List ParseTree → α
  | [] => state
  | t :: rest =>
    let seen := visit state t
    if seen.2 then walk visit seen.1 (t.children ++ rest) else walk visit seen.1 rest
termination_by pending => sizeOfAll pending
decreasing_by
  · rw [sizeOfAll, sizeOfAll_append, size_eq t]
    omega
  · rw [sizeOfAll, size_eq t]
    omega

/-- A node of a tree with the nodes above it, the nearest first. -/
structure Site where
  tree : ParseTree
  above : List ParseTree

mutual

/-- The node and all below it, each before those below it. -/
def sitesUnder (above : List ParseTree) : ParseTree → List Site
  | t@(node _ cs) => ⟨t, above⟩ :: sitesOfAll (t :: above) cs

def sitesOfAll (above : List ParseTree) : List ParseTree → List Site
  | [] => []
  | t :: ts => sitesUnder above t ++ sitesOfAll above ts

end

def sites (t : ParseTree) : List Site := sitesUnder [] t

end ParseTree

/-- The grammars that trees come from. -/
inductive Grammar where
  | javascript
  | typescript
  | tsx
deriving DecidableEq, Repr

namespace Grammar

def all : List Grammar := [javascript, typescript, tsx]

def name : Grammar → String
  | javascript => "javascript"
  | typescript => "typescript"
  | tsx => "tsx"

/-- Files of TypeScript whose name ends in `.tsx` may hold elements of markup. -/
def ofFileName (name : String) : Grammar := if name.endsWith ".tsx" then tsx else typescript

end Grammar

/-- A parser gives a tree for every text unless it cannot run. -/
abbrev Parser := Grammar → String → Option ParseTree

end SnippetLint
