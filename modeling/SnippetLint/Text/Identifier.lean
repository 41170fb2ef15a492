import SnippetLint.Text.LineIndex
import SnippetLint.Text.Search

/-! Identifiers on a line: runs of ASCII letters, digits, `_` and `$` that no digit begins, and
the names of scripts, which may go on with any word character. -/
namespace SnippetLint.Text

def isIdentChar (c : Char) : Bool := c.isAlphanum || c == '_' || c == '$'

def isIdentStart (c : Char) : Bool := c.isAlpha || c == '_' || c == '$'

structure Word where
  text : String
  /-- Bytes of the line before it. -/
  offset : Nat
  column : Nat
deriving DecidableEq, Repr

/-- The longest identifier at the front of a text. -/
def identifier? : List Char → Option (List Char × List Char)
  | [] => none
  | c :: cs =>
    if isIdentStart c then some (c :: cs.takeWhile isIdentChar, cs.dropWhile isIdentChar)
    else none

/-- The identifiers of a line, left to right. One right after a digit, as in `1e5`, is part of a
number. -/
def words (line : List Char) : List Word :=
  ((findAll (fun _ => identifier?) line).filter fun (place, _) =>
    !(line.take place).getLast?.any Char.isDigit).map fun (place, run) =>
      ⟨String.ofList run, byteLength (line.take place), place + 1⟩

namespace Word

/-- Characters before the word on its line. -/
def place (w : Word) : Nat := w.column - 1

def before? (line : List Char) (w : Word) : Option Char :=
  if w.place = 0 then none else (line.drop (w.place - 1)).head?

def after (line : List Char) (w : Word) : List Char := line.drop (w.place + w.text.length)

end Word

/-- What a name of a script can go on with. -/
def isNameChar (c : Char) : Bool := isWordChar c || c == '$'

def name? : List Char → Option (String × List Char)
  | [] => none
  | c :: cs =>
    if isIdentStart c then
      some (String.ofList (c :: cs.takeWhile isNameChar), cs.dropWhile isNameChar)
    else none

end SnippetLint.Text
