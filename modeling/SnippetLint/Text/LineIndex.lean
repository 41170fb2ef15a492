/-! The UTF-8 form of a text by byte offsets, and its lines by a table of the offsets where they
start. A text is cut only where a character starts. What would go below zero or out of the table has
no result. -/
namespace SnippetLint.Text

/-- Bytes of the UTF-8 form. -/
def byteLength : List Char → Nat
  | [] => 0
  | c :: cs => c.utf8Size + byteLength cs

/-- The characters whose first byte lies in `start .. stop`. -/
def byteSlice (start stop : Nat) (text : List Char) : List Char :=
  match text with
  | [] => []
  | c :: cs =>
    let rest := byteSlice (start - c.utf8Size) (stop - c.utf8Size) cs
    if start = 0 && 0 < stop then c :: rest else rest

/-- A character starts at the offset, or the text ends there. -/
def isBoundary : List Char → Nat → Bool
  | _, 0 => true
  | [], _ + 1 => false
  | c :: cs, offset + 1 => c.utf8Size ≤ offset + 1 && isBoundary cs (offset + 1 - c.utf8Size)

/-- The text between two boundaries; nothing else is cut out of a text. -/
def slice? (start stop : Nat) (text : List Char) : Option (List Char) :=
  if start ≤ stop && isBoundary text start && isBoundary text stop then
    some (byteSlice start stop text)
  else none

/-- The last boundary that is not past the offset, byte by byte to the left. There is none to the
left of the text. -/
def lastBoundary? (text : List Char) : Nat → Option Nat
  | 0 => if isBoundary text 0 then some 0 else none
  | offset + 1 =>
    if isBoundary text (offset + 1) then some (offset + 1) else lastBoundary? text offset

/-- Where a number stands in a sorted table, or where it would have to be put. -/
inductive Slot where
  | found (i : Nat)
  | gap (i : Nat)
deriving DecidableEq, Repr

/-- Halves the part `lo .. hi` of a sorted table until `x` is met or nothing is left. -/
def searchBetween (xs : Array Nat) (x lo hi : Nat) (h : hi ≤ xs.size) : Slot :=
  if _ : lo < hi then
    let middle := lo + (hi - lo) / 2
    if xs[middle] = x then .found middle
    else if xs[middle] < x then searchBetween xs x (middle + 1) hi h
    else searchBetween xs x lo middle (by omega)
  else .gap lo
termination_by hi - lo

def search (xs : Array Nat) (x : Nat) : Slot := searchBetween xs x 0 xs.size (Nat.le_refl _)

/-- The number before; zero is the first. -/
def pred? : Nat → Option Nat
  | 0 => none
  | n + 1 => some n

/-- A text with the byte offsets where its lines start. -/
structure LineIndex where
  text : List Char
  starts : Array Nat

namespace LineIndex

/-- The offsets right after the line feeds of a text that starts at `offset`. -/
def startsAfter (offset : Nat) : List Char → List Nat
  | [] => []
  | c :: cs =>
    let rest := startsAfter (offset + c.utf8Size) cs
    if c = '\n' then (offset + 1) :: rest else rest

def ofText (text : List Char) : LineIndex := ⟨text, (0 :: startsAfter 0 text).toArray⟩

/-- A line feed at the end of the text opens an empty last line. -/
def lineCount (index : LineIndex) : Nat := index.starts.size

/-- The offset where a line ends, from 0. Its line feed is not part of it. -/
def stopOf? (index : LineIndex) (line : Nat) : Option Nat :=
  match index.starts[line + 1]? with
  | some next => pred? next
  | none => some (byteLength index.text)

/-- The text of a line; the lines count from 1, and none of the others has any text. -/
def lineText? (index : LineIndex) : Nat → Option (List Char)
  | 0 => some []
  | line + 1 =>
    if index.lineCount ≤ line then some []
    else do slice? (← index.starts[line]?) (← index.stopOf? line) index.text

/-- The line, from 0, that starts last among those that start no later than `offset`. -/
def lineAt? (index : LineIndex) (offset : Nat) : Option Nat :=
  match search index.starts offset with
  | .found i => some i
  | .gap i => pred? i

end LineIndex
end SnippetLint.Text
