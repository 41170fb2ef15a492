import SnippetLint.Diagnostic
import SnippetLint.ParseTree.Basic
import SnippetLint.Text.Search

/-! What is wrong with a text according to its parse tree: the outermost error and missing nodes, in
the order of the text, and what is said of them for a script. Two grammars read each script: one
gives all its errors, the other only its first, with the position in the message. -/
namespace SnippetLint

inductive IssueKind where
  /-- Text that has no place; the start of it. -/
  | unexpected (token : String)
  /-- A token that is not there. -/
  | missing (token : String)
  /-- The text ends too early. -/
  | unexpectedEnd
deriving DecidableEq, Repr

structure Issue where
  start : Nat
  kind : IssueKind
  /-- Right below the root. -/
  topLevel : Bool
deriving DecidableEq, Repr

namespace Issue

/-- Characters of a token that a message shows at most. -/
def maxExcerpt : Nat := 24

/-- The first line of a text, trimmed and cut. -/
def excerpt (text : List Char) : String :=
  String.ofList ((Text.trim (text.takeWhile (· != '\n'))).take maxExcerpt)

def kindOf (source : List Char) (t : ParseTree) : IssueKind :=
  if t.label.isMissing then .missing t.kind
  else if Text.byteLength source ≤ t.start || t.start == t.stop then .unexpectedEnd
  else .unexpected (excerpt (t.firstLeaf.text source))

/-- The issue at a node that is `level` levels below the root. -/
def ofNode (source : List Char) (level : Nat) (t : ParseTree) : Issue :=
  ⟨t.start, kindOf source t, level == 1⟩

end Issue

namespace ParseTree

/-- The issues of the nodes that wait, the next one first, each with its level. Subtrees without
an error are passed over. -/
def issuesOfPending (source : List Char) : List (Nat × ParseTree) → List Issue
  | [] => []
  | (level, t) :: rest =>
    if t.isIssue then Issue.ofNode source level t :: issuesOfPending source rest
    else if t.label.hasError then
      issuesOfPending source (t.children.map (fun c => (level + 1, c)) ++ rest)
    else issuesOfPending source rest
termination_by pending => sizeOfAll (pending.map Prod.snd)
decreasing_by
  · rw [List.map_cons, sizeOfAll, size_eq t]
    omega
  · rw [List.map_cons, sizeOfAll, size_eq t, List.map_append, List.map_map, sizeOfAll_append]
    simp [Function.comp_def]
  · rw [List.map_cons, sizeOfAll, size_eq t]
    omega

def issues (source : List Char) (t : ParseTree) : List Issue := issuesOfPending source [(0, t)]

/-- The first issue of the text. -/
def firstIssue? (source : List Char) (t : ParseTree) : Option Issue := (t.issues source).head?

@[simp] theorem firstIssue?_eq_none_iff {source : List Char} {t : ParseTree} :
    t.firstIssue? source = none ↔ t.issues source = [] :=
  List.head?_eq_none_iff

end ParseTree

/-- What an engine that runs scripts would say. -/
def IssueKind.scriptMessage : IssueKind → String
  | .unexpected token => "Unexpected token `" ++ token ++ "`"
  | .missing token => "Missing `" ++ token ++ "`"
  | .unexpectedEnd => "Unexpected end of input"

namespace ScriptError

def ofIssue (source : List Char) (i : Issue) : Diagnostic :=
  .error (Position.ofByte source i.start) i.kind.scriptMessage

def located (d : Diagnostic) : Diagnostic :=
  { d with message := d.message ++ " (" ++ toString d.position.line ++ ":" ++
      toString d.position.column ++ ")" }

def all (source : List Char) (t : ParseTree) : List Diagnostic :=
  (t.issues source).map (ofIssue source)

def first? (source : List Char) (t : ParseTree) : Option Diagnostic :=
  (t.firstIssue? source).map fun i => located (ofIssue source i)

end ScriptError
end SnippetLint
