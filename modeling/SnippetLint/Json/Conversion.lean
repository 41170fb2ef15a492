import SnippetLint.Diagnostic
import SnippetLint.Json.Value
import SnippetLint.SyntaxTree

/-! Diagnostics and syntax trees as JSON. What a node lacks is left out, and an empty tree is an
empty object. -/
namespace SnippetLint

namespace Severity

/-- A name, or an object that gives the name nothing. -/
def ofJson? : JsonValue → Option Severity
  | .string name => ofExactName? name
  | .object [(name, .null)] => ofExactName? name
  | _ => none

end Severity

namespace Diagnostic

def toJson (d : Diagnostic) : JsonValue :=
  .object [("line", .nat d.position.line), ("column", .nat d.position.column),
    ("message", .string d.message), ("severity", .string d.severity.name)]

def ofParts? (line column message severity : JsonValue) : Option Diagnostic := do
  some ⟨⟨← line.word64?, ← column.word64?⟩, ← message.string?, ← Severity.ofJson? severity⟩

/-- Other members of the object do not matter; a list of the four parts will do, too. -/
def ofJson? : JsonValue → Option Diagnostic
  | .object ms => do
    ofParts? (← JsonValue.find? "line" ms) (← JsonValue.find? "column" ms)
      (← JsonValue.find? "message" ms) (← JsonValue.find? "severity" ms)
  | .array [line, column, message, severity] => ofParts? line column message severity
  | _ => none

end Diagnostic

namespace Position

def toJson (p : Position) : JsonValue :=
  .object [("line", .nat p.line), ("column", .nat p.column)]

/-- Other members of the object do not matter; a list of the two numbers will do, too. -/
def ofJson? : JsonValue → Option Position
  | .object ms => do
    let line ← (← JsonValue.find? "line" ms).word64?
    let column ← (← JsonValue.find? "column" ms).word64?
    some ⟨line, column⟩
  | .array [line, column] => do some ⟨← line.word64?, ← column.word64?⟩
  | _ => none

end Position

namespace SyntaxNode

def member {α : Type} (name : String) (write : α → JsonValue) (a : Option α) :
    List (String × JsonValue) :=
  a.toList.map fun a => (name, write a)

mutual

def toJson : SyntaxNode → JsonValue
  | .node kind message start stop [] =>
    .object (("type", .string kind) :: member "message" .string message ++
      member "start" Position.toJson start ++ member "end" Position.toJson stop)
  | .node kind message start stop (c :: cs) =>
    .object (("type", .string kind) :: member "message" .string message ++
      member "start" Position.toJson start ++ member "end" Position.toJson stop ++
      [("children", .array (toJson c :: toJsonAll cs))])

def toJsonAll : List SyntaxNode → List JsonValue
  | [] => []
  | n :: ns => toJson n :: toJsonAll ns

end

/-- `null` is as good as no member. -/
def optional? {α : Type} (read : JsonValue → Option α) : Option JsonValue → Option (Option α)
  | none | some .null => some none
  | some v => (read v).map some

mutual

/-- A node is an object or the list of its parts, of which the last may be left out. -/
def ofJson? : JsonValue → Option SyntaxNode
  | .object ms => do
    let kind ← (← JsonValue.find? "type" ms).string?
    let message ← optional? JsonValue.string? (JsonValue.find? "message" ms)
    let start ← optional? Position.ofJson? (JsonValue.find? "start" ms)
    let stop ← optional? Position.ofJson? (JsonValue.find? "end" ms)
    some (.node kind message start stop (← childrenMember? ms))
  | .array [.string kind] => some (.node kind none none none [])
  | .array [.string kind, m] => do
    some (.node kind (← optional? JsonValue.string? (some m)) none none [])
  | .array [.string kind, m, s] => do
    some (.node kind (← optional? JsonValue.string? (some m))
      (← optional? Position.ofJson? (some s)) none [])
  | .array [.string kind, m, s, e] => do
    some (.node kind (← optional? JsonValue.string? (some m))
      (← optional? Position.ofJson? (some s)) (← optional? Position.ofJson? (some e)) [])
  | .array [.string kind, m, s, e, .array cs] => do
    some (.node kind (← optional? JsonValue.string? (some m))
      (← optional? Position.ofJson? (some s)) (← optional? Position.ofJson? (some e))
      (← ofJsonAll? cs))
  | _ => none

def ofJsonAll? : List JsonValue → Option (List SyntaxNode)
  | [] => some []
  | v :: vs => do some ((← ofJson? v) :: (← ofJsonAll? vs))

/-- The nodes of the member `children`; none where there is no such member. -/
def childrenMember? : List (String × JsonValue) → Option (List SyntaxNode)
  | [] => some []
  | (name, v) :: ms =>
    if name == "children" then
      match v with
      | .array vs => ofJsonAll? vs
      | _ => none
    else childrenMember? ms

end

end SyntaxNode

namespace SyntaxTree

def toJson : SyntaxTree → JsonValue
  | .ofNode n => n.toJson
  | .empty => .object []

/-- An object that is no node is the empty tree. -/
def ofJson? (v : JsonValue) : Option SyntaxTree :=
  match SyntaxNode.ofJson? v, v with
  | some n, _ => some (.ofNode n)
  | none, .object _ => some .empty
  | none, _ => none

end SyntaxTree
end SnippetLint
