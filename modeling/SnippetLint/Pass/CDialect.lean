import SnippetLint.Diagnostic
import SnippetLint.Source.Mask
import SnippetLint.Text.Identifier

/-! What C does not have or C89 does not allow. Keywords of C++ are errors, the rest is advice. -/
namespace SnippetLint.CDialect
open Text

/-- Keywords of C++ that mean nothing in C. -/
def cppKeywords : List String := [
  "class", "namespace", "template", "bool", "true", "false", "new", "delete", "try", "catch",
  "throw", "private", "public", "protected", "virtual", "friend", "operator", "this"]

/-- Words that open a line shaped like a definition and name no function. -/
def statementWords : List String := [
  "if", "for", "while", "switch", "return", "sizeof", "else", "do", "case", "goto"]

def cppKeywordUses (masked : List Char) : List Diagnostic :=
  (numbered masked).flatMap fun (line, n) =>
    ((words line).filter fun w => cppKeywords.contains w.text).map fun w =>
      .error ⟨n, w.column⟩ ("'" ++ w.text ++ "' is a C++ keyword, not standard C")

/-- The head of a declaration: the word of its type and its name. -/
structure Head where
  type : List Char
  name : List Char
deriving DecidableEq, Repr

def isHeadStart (c : Char) : Bool := c.isAlpha || c == '_'

/-- The word at the front that can be a type or a name, and the rest. -/
def headWord? : List Char → Option (List Char × List Char)
  | [] => none
  | c :: cs =>
    if isHeadStart c then some (c :: cs.takeWhile isWordChar, cs.dropWhile isWordChar) else none

/-- Cuts a word in two as late as the second part can still be a name. -/
def cutWord? (run : List Char) : Option Head :=
  (List.range' 1 (run.length - 1)).reverse.findSome? fun k =>
    match run.drop k with
    | c :: cs => if isHeadStart c then some ⟨run.take k, c :: cs⟩ else none
    | [] => none

/-- A type, stars and a name with `ends` after it. A word with nothing between it and the end is
read as type and name in one. -/
def plainHead? (ends : List Char → Bool) (cs : List Char) : Option Head := do
  let (run, rest) ← headWord? cs
  if ends (skipBlanks rest) then cutWord? run
  else
    let (name, rest) ← headWord? (skipBlanks ((skipBlanks rest).dropWhile (· == '*')))
    if ends (skipBlanks rest) then some ⟨run, name⟩ else none

/-- As many qualifiers are passed over as leave a head; the last one can be its type. -/
def headFrom? (qualifiers : List String) (ends : List Char → Bool) : Nat → List Char → Option Head
  | 0, cs => plainHead? ends cs
  | fuel + 1, cs =>
    (((oneOfWords? qualifiers none cs).bind skipBlanks1?).bind
      (headFrom? qualifiers ends fuel)).or (plainHead? ends cs)

def head? (qualifiers : List String) (ends : List Char → Bool) (cs : List Char) : Option Head :=
  headFrom? qualifiers ends cs.length cs

/-- The head of a variable's declaration, on an indented line. -/
def variableHead? (line : List Char) : Option Head := do
  head? ["const", "unsigned", "signed", "long", "short", "static", "volatile", "register",
    "struct", "enum", "union"]
    (fun cs => cs.head? == some '=' || cs.head? == some ';' || cs.head? == some '[')
    (← skipBlanks1? line)

/-- The head of a function's definition, at the start of a line. -/
def functionHead? (line : List Char) : Option Head :=
  head? ["static", "inline", "extern", "const", "unsigned", "signed", "struct"]
    (·.head? == some '(') line

def isStatementWord (w : List Char) : Bool := statementWords.contains (String.ofList w)

def isDeclaration (line : List Char) : Bool :=
  (variableHead? line).any fun head => !isStatementWord head.type

/-- A line that ends a statement and declares nothing. -/
def endsStatement (line : List Char) : Bool :=
  let t := trim line
  (t.getLast? == some ';' || t.getLast? == some '\x7d') && !isDeclaration line &&
    t.head? != some '#'

/-- `previous` is the last line before line `n` that is not blank. -/
def lateDeclarationsFrom (previous : Option (List Char)) (n : Nat) :
    List (List Char) → List Diagnostic
  | [] => []
  | line :: rest =>
    let found := lateDeclarationsFrom (if (trim line).isEmpty then previous else some line)
      (n + 1) rest
    if isDeclaration line && previous.any endsStatement then
      .warning ⟨n, (line.takeWhile isBlank).length + 1⟩
        "Variable declaration not at the beginning of a block (not allowed in C89/C90)" :: found
    else found

/-- Declarations right after a statement. -/
def lateDeclarations (masked : List Char) : List Diagnostic :=
  lateDeclarationsFrom none 1 (lines masked)

def missingPrototype? (declared : List String) (n : Nat) (line : List Char) : Option Diagnostic :=
  match functionHead? line with
  | some head =>
    let name := String.ofList head.name
    if name == "main" || isStatementWord head.name || isStatementWord head.type ||
        declared.contains name then none
    else some (.warning ⟨n, 1⟩
      ("Function '" ++ name ++ "' might be missing a prototype declaration"))
  | none => none

/-- `declared` are the words of earlier lines that have both a parenthesis and a semicolon. -/
def missingPrototypesFrom (declared : List String) (n : Nat) :
    List (List Char) → List Diagnostic
  | [] => []
  | line :: rest =>
    if line.contains ';' then
      let more := if line.contains '(' then (words line).map Word.text else []
      missingPrototypesFrom (more ++ declared) (n + 1) rest
    else
      (missingPrototype? declared n line).toList ++ missingPrototypesFrom declared (n + 1) rest

/-- Definitions of functions that no earlier line mentions. -/
def missingPrototypes (masked : List Char) : List Diagnostic :=
  missingPrototypesFrom [] 1 (lines masked)

/-- Keywords, late declarations, prototypes. -/
def violations (code : List Char) (declarationsFirst prototypes : Bool) : List Diagnostic :=
  let masked := Source.mask code
  cppKeywordUses masked ++ (if declarationsFirst then lateDeclarations masked else []) ++
    (if prototypes then missingPrototypes masked else [])

/-- One position for each line, the first. -/
def firstOfLines (last : Option Nat) : List Position → List Position
  | [] => []
  | p :: ps =>
    if last == some p.line then firstOfLines last ps else p :: firstOfLines (some p.line) ps

/-- `//` comments, which C89 does not have. -/
def lineComments (code : List Char) : List Diagnostic :=
  (firstOfLines none ((Source.lineComments code).map (Position.ofByte code))).map fun p =>
    .warning p "C++ style comments (//) are not standard in C89/C90"

end SnippetLint.CDialect
