import SnippetLint.Diagnostic
import SnippetLint.Source.Mask
import SnippetLint.Text.Identifier

/-! Names of a script that nothing in it seems to declare. Declarations are found by their shape,
line by line and without scopes, so a report is only a guess. -/
namespace SnippetLint.UndefinedName
open Text

/-- Keywords, literals and globals of the host. -/
def knownNames : List String := [
  "if", "else", "for", "while", "do", "switch", "case", "break", "continue", "return",
  "function", "var", "let", "const", "new", "this", "typeof", "instanceof", "void", "delete",
  "try", "catch", "finally", "throw", "class", "extends", "super", "import", "export",
  "default", "from", "as", "null", "undefined", "true", "false", "in", "of", "await", "async",
  "yield", "static", "get", "set", "debugger", "with", "console", "document", "window",
  "global", "globalThis", "process", "require", "module", "exports", "arguments", "Math",
  "JSON", "Object", "Array", "String", "Number", "Boolean", "Symbol", "BigInt", "Promise",
  "Date", "RegExp", "Error", "TypeError", "RangeError", "SyntaxError", "Map", "Set",
  "WeakMap", "WeakSet", "Proxy", "Reflect", "Intl", "NaN", "Infinity", "parseInt",
  "parseFloat", "isNaN", "isFinite", "setTimeout", "setInterval", "clearTimeout",
  "clearInterval", "fetch", "alert", "localStorage"]

/-- Words that introduce the name after them. -/
def declaringWords : List String := ["var", "let", "const", "function", "class"]

def declared? (before : Option Char) (cs : List Char) : Option (String × List Char) := do
  name? (← skipBlanks1? (← oneOfWords? declaringWords before cs))

/-- `catch (name)`. -/
def caught? (before : Option Char) (cs : List Char) : Option (String × List Char) := do
  let cs ← char? '(' (skipBlanks (← wholeWord? "catch" before cs))
  let (name, cs) ← name? (skipBlanks cs)
  some (name, ← char? ')' (skipBlanks cs))

def arrow? (cs : List Char) : Option (List Char) := ['=', '>'].isPrefixOf? (skipBlanks cs)

/-- `name =>`. -/
def arrowParameter? (cs : List Char) : Option (String × List Char) := do
  let (name, cs) ← name? cs
  some (name, ← arrow? cs)

/-- The parameters of `function name(...)`, a generator or not, named or not. -/
def functionParameters? (before : Option Char) (cs : List Char) :
    Option (List Char × List Char) := do
  let cs := skipBlanks (← wholeWord? "function" before cs)
  let cs := skipBlanks ((char? '*' cs).getD cs)
  upTo? ')' (← char? '(' (skipBlanks (cs.dropWhile isNameChar)))

/-- The parameters of `(...) =>`, which no bracket interrupts. -/
def arrowParameters? (cs : List Char) : Option (List Char × List Char) := do
  let cs ← char? '(' cs
  let inside (c : Char) : Bool := c != '(' && c != ')'
  some (cs.takeWhile inside, ← arrow? (← char? ')' (cs.dropWhile inside)))

/-- A parameter is a name, after three dots at most. -/
def parameterName? (parameter : List Char) : Option String :=
  let cs := trim parameter
  let dots := (cs.takeWhile (· == '.')).length
  if dots ≤ 3 then (name? (skipBlanks (cs.drop dots))).map Prod.fst else none

def parameterNames (list : List Char) : List String :=
  (list.splitOn ',').filterMap parameterName?

def namesOfLine (line : List Char) : List String :=
  (findAll declared? line).map Prod.snd ++ (findAll caught? line).map Prod.snd ++
    (findAll (fun _ => arrowParameter?) line).map Prod.snd ++
    (findAll functionParameters? line).flatMap (parameterNames ·.2) ++
    (findAll (fun _ => arrowParameters?) line).flatMap (parameterNames ·.2)

/-- All names that the masked text introduces, each once. -/
def declaredNames (masked : List Char) : List String :=
  ((lines masked).flatMap namesOfLine).eraseDups

/-- The member of a value: the name comes right after `.` or `[`. -/
def isMember (line : List Char) (w : Word) : Bool :=
  w.before? line == some '.' || w.before? line == some '['

/-- The key of an object or a label: one colon comes right after the name, not two. -/
def isKey (line : List Char) (w : Word) : Bool :=
  match w.after line with
  | ':' :: ':' :: _ => false
  | ':' :: _ => true
  | _ => false

def warning (n : Nat) (w : Word) : Diagnostic :=
  .warning ⟨n, w.column⟩ ("'" ++ w.text ++ "' might be undefined")

/-- Uses of names that are neither declared nor known. -/
def find (code : List Char) : List Diagnostic :=
  let masked := Source.mask code
  let names := declaredNames masked
  (numbered masked).flatMap fun (line, n) =>
    ((words line).filter fun w =>
      !(names.contains w.text || knownNames.contains w.text || isMember line w ||
        isKey line w)).map (warning n)

end SnippetLint.UndefinedName
