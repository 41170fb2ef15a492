import SnippetLint.Text.Search
import SnippetLint.TypeScript.Finding
import SnippetLint.TypeScript.Parameter

/-! Strict-mode checks that a syntax tree is enough for: parameters without a type, names that are
never read, functions that forget to return, and literals of the wrong primitive type. -/
namespace SnippetLint.TypeScript
open ParseTree

/-- A place where a name stands. -/
structure Reference where
  name : List Char
  /-- A byte offset. -/
  start : Nat
deriving DecidableEq, Repr

/-- A text with its parse tree. -/
structure Program where
  source : List Char
  root : ParseTree

namespace Program

def references (p : Program) : List Reference :=
  let note (found : Array Reference) (t : ParseTree) : Array Reference × Bool :=
    if t.kind == "identifier" || t.kind == "shorthand_property_identifier" then
      (found.push ⟨t.text p.source, t.start⟩, true)
    else (found, true)
  (walk note #[] [p.root]).toList

/-- A text that imports or exports is a module, and its top-level names are its own. -/
def isModule (p : Program) : Bool :=
  p.root.namedChildren.any fun c => c.kind == "import_statement" || c.kind == "export_statement"

end Program

def neverRead (name : List Char) : String :=
  "'" ++ String.ofList name ++ "' is declared but its value is never read."

def implicitAny (o : Options) (p : Parameter) : Finding :=
  let name := String.ofList p.name
  let forbidden := o.forbidsImplicitAny
  if p.rest then
    .graded forbidden 7019 p.start
      ("Rest parameter '" ++ name ++ "' implicitly has an 'any[]' type.")
  else if forbidden then
    .graded forbidden 7006 p.start ("Parameter '" ++ name ++ "' implicitly has an 'any' type.")
  else
    .graded forbidden 7044 p.start ("Parameter '" ++ name ++
      "' implicitly has an 'any' type, but a better type may be inferred from usage.")

/-- A local whose name stands nowhere else in the text. -/
def unusedLocal (refs : List Reference) (o : Options) (name : List Char) (start : Nat) :
    List Finding :=
  if name.isEmpty || name.head? == some '_' || refs.any fun r => r.name == name && r.start != start
  then []
  else [.graded o.noUnusedLocals 6133 start (neverRead name)]

/-- References to the name that start inside the node. -/
def referencesWithin (refs : List Reference) (name : List Char) (scope : ParseTree) : Nat :=
  (refs.filter fun r => r.name == name && scope.start ≤ r.start && r.start < scope.stop).length

def unusedParameter (refs : List Reference) (o : Options) (body : ParseTree) (p : Parameter) :
    List Finding :=
  if p.property || p.name.head? == some '_' || referencesWithin refs p.name body != 0 then []
  else [.graded o.noUnusedParameters 6133 p.start (neverRead p.name)]

/-- Types that ask for no returned value. -/
def voidLike : List String := ["void", "any", "undefined", "never", "unknown"]

def isVoidLike (type : List Char) : Bool :=
  let t := Text.trim type
  "Promise<void".toList.isPrefixOf t ||
    (t.splitOn '|').any fun part => voidLike.contains (String.ofList (Text.trim part))

mutual

/-- `return` with a value, but for those of functions inside. -/
def valueReturns : ParseTree → Nat
  | t@(node _ cs) =>
    (if t.kind == "return_statement" && !t.namedChildren.isEmpty then 1 else 0) +
      if isFunction t then 0 else valueReturnsOfAll cs

def valueReturnsOfAll : List ParseTree → Nat
  | [] => 0
  | t :: ts => valueReturns t + valueReturnsOfAll ts

end

def missingReturns (source : List Char) (o : Options) (f body : ParseTree) : List Finding :=
  let type := (f.child? "return_type").bind firstNamed?
  let needless := type.any fun t => isVoidLike (t.text source)
  let values := valueReturns body
  let always := alwaysReturns body
  let noValue := match type with
    | some t =>
      if !needless && values == 0 && !always then
        [Finding.error 2355 t.start ("A function whose declared type is neither 'undefined', " ++
          "'void', nor 'any' must return a value.")]
      else []
    | none => []
  noValue ++
    if o.noImplicitReturns && !needless && values != 0 && !always then
      [.error 7030 ((f.child? "name").getD f).start "Not all code paths return a value."]
    else []

/-- The functions that are checked. -/
def checkedKinds : List String := [
  "function_declaration", "generator_function_declaration", "function_expression",
  "arrow_function", "method_definition"]

def isLocal (p : Program) (s : Site) : Bool :=
  (p.isModule || inFunction s) && !isExported s

def checkFunction (p : Program) (refs : List Reference) (o : Options) (s : Site) :
    List Finding :=
  let f := s.tree
  let parameters := Parameter.ofFunction p.source f
  let untyped :=
    if contextuallyTyped s then []
    else (parameters.filter (!·.typed)).map (implicitAny o)
  let unused :=
    if (f.kind == "function_declaration" || f.kind == "generator_function_declaration") &&
        isLocal p s then
      (f.child? "name").elim [] fun name => unusedLocal refs o (name.text p.source) name.start
    else []
  untyped ++ unused ++
    match f.child? "body" with
    | none => []
    | some body =>
      parameters.flatMap (unusedParameter refs o body) ++
        if body.kind == "statement_block" && !isGenerator f then missingReturns p.source o f body
        else []

/-- The primitive type of a literal. -/
def literalType? : String → Option String
  | "string" | "template_string" => some "string"
  | "number" => some "number"
  | "true" | "false" => some "boolean"
  | "null" => some "null"
  | "undefined" => some "undefined"
  | _ => none

/-- A declared primitive type and a literal of another. -/
def mismatch (p : Program) (o : Options) (declarator : ParseTree) (start : Nat) :
    List Finding :=
  let declared := (((declarator.child? "type").bind firstNamed?).filter
    (·.kind == "predefined_type")).map fun t => String.ofList (t.text p.source)
  match declared, (declarator.child? "value").bind fun v => literalType? v.kind with
  | some type, some literal =>
    if !(["string", "number", "boolean"].contains type) || type == literal ||
        ((literal == "null" || literal == "undefined") && !o.checksNulls) then []
    else [.error 2322 start
      ("Type '" ++ literal ++ "' is not assignable to type '" ++ type ++ "'.")]
  | _, _ => []

/-- `s` is the name of a variable. -/
def checkDeclarator (p : Program) (refs : List Reference) (o : Options) (s : Site) :
    List Finding :=
  match s.above with
  | [] => []
  | declarator :: above =>
    (if isLocal p ⟨declarator, above⟩ then
      unusedLocal refs o (s.tree.text p.source) s.tree.start else []) ++
      mismatch p o declarator s.tree.start

def isChecked (s : Site) : Bool := s.tree.named && checkedKinds.contains s.tree.kind

def isDeclaredName (s : Site) : Bool :=
  s.tree.kind == "identifier" && s.tree.label.field == some "name" &&
    s.above.head?.any (·.kind == "variable_declarator")

/-- Functions first, then variables, each in the order of the text. -/
def check (p : Program) (o : Options) : List Finding :=
  let refs := p.references
  (p.root.sites.filter isChecked).flatMap (checkFunction p refs o) ++
    (p.root.sites.filter isDeclaredName).flatMap (checkDeclarator p refs o)

/-- The findings in the order of their places; those at one place stay in order. -/
def semantic (p : Program) (o : Options) : List Finding :=
  (check p o).mergeSort fun a b => a.start ≤ b.start

end SnippetLint.TypeScript
