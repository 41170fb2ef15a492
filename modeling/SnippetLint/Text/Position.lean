import SnippetLint.Text.LineIndex

/-! Lines of a text and the positions in it: lines and columns count from 1, columns count
characters, and every offset of the UTF-8 form has a position. -/
namespace SnippetLint.Text

/-- A line feed ends a line; one at the end of the text opens an empty last line. -/
def lines (text : List Char) : List (List Char) := text.splitOn '\n'

/-- The lines with their numbers, from 1. -/
def numbered (text : List Char) : List (List Char × Nat) := (lines text).zipIdx 1

end SnippetLint.Text

namespace SnippetLint

structure Position where
  line : Nat
  column : Nat
deriving DecidableEq, Repr

namespace Position

def first : Position := ⟨1, 1⟩

def advance (p : Position) (c : Char) : Position :=
  if c = '\n' then ⟨p.line + 1, 1⟩ else ⟨p.line, p.column + 1⟩

/-- The position right after `text`. -/
def after (text : List Char) : Position := text.foldl advance first

end Position

namespace Text.LineIndex

/-- An offset inside a character is at that character; one past the end is at the end. -/
def position? (index : LineIndex) (offset : Nat) : Option Position := do
  let boundary ← lastBoundary? index.text (min offset (byteLength index.text))
  let line ← index.lineAt? boundary
  let before ← slice? (← index.starts[line]?) boundary index.text
  some ⟨line + 1, before.length + 1⟩

/-- The nearest line, then the nearest column of it; a line has one column past its end. -/
def clamp? (index : LineIndex) (p : Position) : Option Position := do
  let line := max 1 (min p.line index.lineCount)
  let text ← index.lineText? line
  some ⟨line, max 1 (min p.column (text.length + 1))⟩

end Text.LineIndex

namespace Position
open Text

/-- The first position stands in for one that is not found, as the empty text does for a line. -/
def ofByte (text : List Char) (offset : Nat) : Position :=
  ((LineIndex.ofText text).position? offset).getD first

def lineText (text : List Char) (line : Nat) : List Char :=
  ((LineIndex.ofText text).lineText? line).getD []

def clamp (p : Position) (text : List Char) : Position :=
  ((LineIndex.ofText text).clamp? p).getD first

end Position
end SnippetLint
