import SnippetLint.Diagnostic
import SnippetLint.Source.Mask
import SnippetLint.Text.Search

/-! Lines that look like a whole statement and do not end in a semicolon. Each line of the masked
text is judged by itself, but for the brace that may open the next one. -/
namespace SnippetLint.Semicolon
open Text

def message : String := "Missing semicolon at the end of statement"

/-- Where the semicolon belongs: after the last character that is no blank. -/
def place (line : List Char) (n : Nat) : Position := ⟨n, (trimEnd line).length + 1⟩

def endsWith (line : List Char) (c : Char) : Bool := line.getLast? == some c

/-- A statement may go on to the end of the line: something follows, without `;` or braces. -/
def goesOn (cs : List Char) : Bool :=
  !cs.isEmpty && cs.all fun c => c != ';' && c != '\x7b' && c != '\x7d'

def declares (before : Option Char) (cs : List Char) : Bool :=
  (do let name ← skipBlanks1? (← oneOfWords? ["var", "let", "const"] before cs)
      char? '=' (skipBlanks (← wordRun? name))).any goesOn

def returns (before : Option Char) (cs : List Char) : Bool :=
  ((wholeWord? "return" before cs).bind skipBlanks1?).any goesOn

def logs (before : Option Char) (cs : List Char) : Bool :=
  (do let method ← char? '.' (← wholeWord? "console" before cs)
      char? '(' (← wordRun? method)).any goesOn

def calls (before : Option Char) (cs : List Char) : Bool :=
  before.any isWordChar && (char? '(' cs).any fun r => goesOn r && endsWith r ')'

/-- A trimmed line of a script holds a statement that wants its semicolon. -/
def scriptStatement (line : List Char) : Bool :=
  occurs declares line || occurs returns line || occurs logs line || occurs calls line

/-- Semicolons that a script leaves to automatic insertion. -/
def missingInScript (code : List Char) : List Diagnostic :=
  (numbered (Source.mask code)).filterMap fun (raw, n) =>
    let line := trim raw
    if line.isEmpty || endsWith line ';' || endsWith line '\x7b' || endsWith line '\x7d' ||
        ['/', '/'].isPrefixOf line then none
    else if scriptStatement line then some (.warning (place raw n) message)
    else none

/-- Types and storage classes that begin a declaration. -/
def declarationWords : List String := [
  "int", "char", "float", "double", "void", "bool", "long", "short", "unsigned", "signed",
  "auto", "const", "static", "extern", "volatile", "register", "struct", "class", "enum",
  "typename", "template", "namespace", "using", "typedef"]

/-- Words that begin a statement's head, which a body follows. -/
def controlWords : List String := ["if", "for", "while", "switch", "else", "do"]

/-- The statement goes on in the next line. -/
def continues (line : List Char) : Bool :=
  match line.reverse with
  | [] => false
  | [c] => c == '+' || ",\\([:".toList.contains c
  | c :: d :: _ =>
    ",\\([:".toList.contains c || (c == d && "&|<>".toList.contains c) ||
      (c == '+' && d != '+') || (c == '=' && !"=!<>".toList.contains d)

/-- A closing brace may come before the word. -/
def controlHead (line : List Char) : Bool :=
  (oneOfWords? controlWords none ((char? '\x7d' line).elim line skipBlanks)).isSome

def callAtEnd (before : Option Char) (cs : List Char) : Bool :=
  before.any isWordChar && (char? '(' (skipBlanks cs)).any (endsWith · ')')

def returnsValue (before : Option Char) (cs : List Char) : Bool :=
  ((wholeWord? "return" before cs).bind skipBlanks1?).any (!·.isEmpty)

/-- A trimmed line of C or C++ holds a statement. -/
def blockStatement (line : List Char) : Bool :=
  (oneOfWords? declarationWords none line).isSome || line.contains '=' ||
    occurs callAtEnd line || hasPiece ['+', '+'] line || hasPiece ['-', '-'] line ||
    occurs returnsValue line

def wanted (line : List Char) : Bool :=
  !(line.isEmpty || line.head? == some '#' || endsWith line '\x7b' || endsWith line '\x7d' ||
    endsWith line ';') &&
  !(continues line || controlHead line) && blockStatement line

/-- The next line that is not blank opens a block. -/
def blockFollows (rest : List (List Char)) : Bool :=
  ((rest.map trim).find? (!·.isEmpty)).any (·.head? == some '\x7b')

def missingInBlockFrom (n : Nat) : List (List Char) → List Diagnostic
  | [] => []
  | raw :: rest =>
    let found := missingInBlockFrom (n + 1) rest
    if wanted (trim raw) && !blockFollows rest then .error (place raw n) message :: found
    else found

/-- Semicolons that C or C++ cannot do without. -/
def missingInBlock (code : List Char) : List Diagnostic :=
  missingInBlockFrom 1 (lines (Source.mask code))

end SnippetLint.Semicolon
