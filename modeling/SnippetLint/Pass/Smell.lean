import SnippetLint.Diagnostic
import SnippetLint.Source.Mask
import SnippetLint.Text.Search

/-! Habits of C and C++ that are better avoided. Each rule is a pattern, and all are warnings. -/
namespace SnippetLint.Smell
open Text

/-- What a preprocessor directive says after its `#`. -/
def directive? (cs : List Char) : Option (List Char) :=
  (char? '#' (skipBlanks cs)).map skipBlanks

def isInclude (line : List Char) : Bool :=
  ((directive? line).bind (wholeWord? "include" none)).isSome

/-- At the start of a line: `#ifndef` or `#pragma once`. -/
def isGuard (before : Option Char) (cs : List Char) : Bool :=
  (before == none || before == some '\n') && (directive? cs).any fun cs =>
    (wholeWord? "ifndef" none cs).isSome ||
      ((wholeWord? "pragma" none cs).bind skipBlanks1?).any
        fun cs => (wholeWord? "once" none cs).isSome

/-- The text begins with an include and has no include guard anywhere. -/
def missingGuard (code : List Char) : List Diagnostic :=
  match (numbered code).find? fun (line, _) => !(trim line).isEmpty with
  | some (line, n) =>
    if isInclude line && !occurs isGuard code then
      [.warning ⟨n, 1⟩
        "Header file might be missing include guards (#ifndef, #define, #endif or #pragma once)"]
    else []
  | none => []

def usingStd? (before : Option Char) (cs : List Char) : Option (Unit × List Char) := do
  let cs ← skipBlanks1? (← wholeWord? "using" before cs)
  let cs ← skipBlanks1? (← wholeWord? "namespace" none cs)
  some ((), ← wholeWord? "std" none cs)

/-- The first on each line counts, and only where the text includes something. -/
def usingNamespaceStd (masked : List Char) : List Diagnostic :=
  if (lines masked).any isInclude then
    (numbered masked).filterMap fun (line, n) =>
      (find? usingStd? line).map fun (place, _) => .warning ⟨n, place + 1⟩
        "Using 'using namespace std' in a header file is not recommended"
  else []

/-- `int main(`, with the text after it. -/
def mainHead? (before : Option Char) (cs : List Char) : Option (List Char × List Char) := do
  let cs ← skipBlanks1? (← wholeWord? "int" before cs)
  let cs ← char? '(' (skipBlanks (← wholeWord? "main" none cs))
  some (cs, cs)

/-- The byte offset of the first character with `p`. -/
def offsetOf? (p : Char → Bool) : List Char → Option Nat
  | [] => none
  | c :: cs => if p c then some 0 else (offsetOf? p cs).map (c.utf8Size + ·)

/-- The byte offset of the brace after which no block is open any more, where `depth` are open at
`offset`. There is no result where a brace closes and none is open. -/
def closingBrace? (depth offset : Nat) : List Char → Option (Option Nat)
  | [] => some none
  | c :: cs =>
    if c = '\x7b' then closingBrace? (depth + 1) (offset + c.utf8Size) cs
    else if c = '\x7d' then
      (pred? depth).bind fun depth =>
        if depth = 0 then some (some offset) else closingBrace? depth (offset + c.utf8Size) cs
    else closingBrace? depth (offset + c.utf8Size) cs

/-- The inside of the first block from a byte offset on, unless a semicolon comes before it or it
is not closed. There is no result where a text would be cut inside of a character. -/
def blockAfter? (text : List Char) (start : Nat) : Option (Option (List Char)) := do
  let rest ← slice? start (byteLength text) text
  match offsetOf? (fun c => c == '\x7b' || c == ';') rest with
  | none => some none
  | some opening =>
    let block ← slice? opening (byteLength rest) rest
    if block.head? == some ';' then some none
    else
      match ← closingBrace? 0 0 block with
      | none => some none
      | some closing => (slice? (opening + 1) (opening + closing) rest).map some

def mainWithoutReturn (masked : List Char) : List Diagnostic :=
  (findAll mainHead? masked).filterMap fun (place, rest) =>
    match (blockAfter? masked (byteLength masked - byteLength rest)).join with
    | some body =>
      if hasWord "return" body then none
      else some (.warning (.after (masked.take place))
        "Non-void function 'main' might be missing a return statement")
    | none => none

def newWord? (before : Option Char) (cs : List Char) : Option (Unit × List Char) :=
  (wholeWord? "new" before cs).map fun cs => ((), cs)

/-- Every `new` of a text that says `delete` nowhere. -/
def newWithoutDelete (masked : List Char) : List Diagnostic :=
  if hasWord "delete" masked then []
  else (numbered masked).flatMap fun (line, n) =>
    (findAll newWord? line).map fun (place, _) => .warning ⟨n, place + 1⟩
      "Potential memory leak: 'new' used without corresponding 'delete'"

/-- The first `->` of each line that also names a null pointer. -/
def arrowNearNull (masked : List Char) : List Diagnostic :=
  (numbered masked).filterMap fun (line, n) =>
    if hasWord "NULL" line || hasWord "nullptr" line then
      (find? (fun _ cs => (['-', '>'].isPrefixOf? cs).map fun cs => ((), cs)) line).map
        fun (place, _) => .warning ⟨n, place + 1⟩ "Potential null pointer dereference"
    else none

/-- Rule after rule. -/
def find (code : List Char) : List Diagnostic :=
  let masked := Source.mask code
  missingGuard code ++ usingNamespaceStd masked ++ mainWithoutReturn masked ++
    newWithoutDelete masked ++ arrowNearNull masked

end SnippetLint.Smell
