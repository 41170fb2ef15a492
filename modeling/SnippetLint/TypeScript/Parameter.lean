import SnippetLint.TypeScript.Completion

/-! Functions of a TypeScript tree: their parameters, and what stands around them. -/
namespace SnippetLint.TypeScript
open ParseTree

structure Parameter where
  name : List Char
  /-- Where the name starts, in bytes. -/
  start : Nat
  /-- It has a type or a default value. -/
  typed : Bool
  rest : Bool
  /-- It declares a property of the class, too. -/
  property : Bool
deriving DecidableEq, Repr

namespace Parameter

/-- The node of the name, and whether the parameter takes all remaining arguments. -/
def binding? (pattern : ParseTree) : Option (ParseTree × Bool) :=
  match pattern.kind with
  | "identifier" => some (pattern, false)
  | "rest_pattern" =>
    (pattern.firstNamed?.filter (·.kind == "identifier")).map fun inner => (inner, true)
  | _ => none

/-- Parameters that take a value apart have no name and are left out. -/
def ofNode? (source : List Char) (t : ParseTree) : Option Parameter := do
  if t.kind != "required_parameter" && t.kind != "optional_parameter" then none
  else
    let (name, rest) ← binding? (← t.child? "pattern")
    some {
      name := name.text source
      start := name.start
      typed := (t.child? "type").isSome || (t.child? "value").isSome
      rest
      property := t.children.any fun c =>
        c.kind == "accessibility_modifier" || c.kind == "readonly" }

/-- An arrow function may have one parameter without parentheses. -/
def ofFunction (source : List Char) (f : ParseTree) : List Parameter :=
  match f.child? "parameter" with
  | some single => [⟨single.text source, single.start, false, false, false⟩]
  | none =>
    match f.child? "parameters" with
    | some list => list.namedChildren.filterMap (ofNode? source)
    | none => []

end Parameter

/-- A callback or the value of a typed binding has the types of its parameters from there. -/
def contextuallyTyped (s : Site) : Bool :=
  (s.tree.kind == "arrow_function" || s.tree.kind == "function_expression") &&
    (s.above.find? (·.kind != "parenthesized_expression")).any fun p =>
      match p.kind with
      | "arguments" | "as_expression" | "satisfies_expression" => true
      | "variable_declarator" | "public_field_definition" => (p.child? "type").isSome
      | _ => false

def inFunction (s : Site) : Bool := s.above.any isFunction

/-- Below an export that is nearer than the program. -/
def isExported (s : Site) : Bool :=
  (s.above.find? fun p => p.kind == "export_statement" || p.kind == "program").any
    (·.kind == "export_statement")

def isGenerator (f : ParseTree) : Bool :=
  f.kind == "generator_function_declaration" || f.kind == "generator_function" ||
    (f.kind == "method_definition" && f.children.any (·.kind == "*"))

end SnippetLint.TypeScript
