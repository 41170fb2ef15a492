/-! The characters of a YAML text, each with the place where it stands, and the text that the
spacing inside a scalar stands for. -/
namespace SnippetLint.Yaml

/-- The characters that may be written in a YAML text. -/
def isPrintable (c : Char) : Bool :=
  let n := c.toNat
  n == 0x09 || n == 0x0A || n == 0x0D || (0x20 ≤ n && n ≤ 0x7E) || n == 0x85 ||
    (0xA0 ≤ n && n ≤ 0xD7FF) || (0xE000 ≤ n && n ≤ 0xFFFD) || 0x10000 ≤ n

/-- Carriage return, the pair of it and a line feed, and next line stand for a line feed; the line
and paragraph separators end a line as they are. -/
def unifyBreaks : List Char → List Char
  | [] => []
  | '\r' :: '\n' :: cs => '\n' :: unifyBreaks cs
  | '\r' :: cs => '\n' :: unifyBreaks cs
  | '\u0085' :: cs => '\n' :: unifyBreaks cs
  | c :: cs => c :: unifyBreaks cs

def isBreak (c : Char) : Bool := c == '\n' || c == '\u2028' || c == '\u2029'

def hexDigit? (c : Char) : Option Nat :=
  if c.isDigit then some (c.toNat - '0'.toNat)
  else if 'a' ≤ c ∧ c ≤ 'f' then some (c.toNat - 'a'.toNat + 10)
  else if 'A' ≤ c ∧ c ≤ 'F' then some (c.toNat - 'A'.toNat + 10)
  else none

structure Spot where
  char : Char
  /-- Characters before it. -/
  index : Nat
  line : Nat
  /-- Characters before it on its line. -/
  column : Nat
deriving DecidableEq, Repr

namespace Spot

def isBreak (s : Spot) : Bool := Yaml.isBreak s.char

/-- A space or a tab. -/
def isBlank (s : Spot) : Bool := s.char == ' ' || s.char == '\t'

def isSpacing (s : Spot) : Bool := s.isBlank || s.isBreak

/-- What a name is made of: an anchor, a directive, the handle of a tag. -/
def isName (s : Spot) : Bool := s.char.isAlphanum || s.char == '_' || s.char == '-'

end Spot

def spotsFrom (index line column : Nat) : List Char → List Spot
  | [] => []
  | c :: cs =>
    ⟨c, index, line, column⟩ ::
      if isBreak c then spotsFrom (index + 1) (line + 1) 0 cs
      else spotsFrom (index + 1) line (column + 1) cs

/-- `none` if the text holds a character that no YAML text may. -/
def spots? (text : List Char) : Option (List Spot) :=
  if text.all isPrintable then some (spotsFrom 0 0 0 (unifyBreaks text)) else none

namespace Spots

def text (spots : List Spot) : List Char := spots.map Spot.char

def startsWith (c : Char) : List Spot → Bool
  | [] => false
  | s :: _ => s.char == c

def startsWithAny (cs : List Char) : List Spot → Bool
  | [] => false
  | s :: _ => cs.contains s.char

/-- Spacing or the end of the text. -/
def atSpacing : List Spot → Bool
  | [] => true
  | s :: _ => s.isSpacing

/-- Three times `c` at the start of a line, and spacing after them. -/
def atMarker (c : Char) : List Spot → Bool
  | a :: b :: d :: rest =>
    a.column == 0 && a.char == c && b.char == c && d.char == c && atSpacing rest
  | _ => false

/-- What begins or ends a document. -/
def atDocumentMarker (spots : List Spot) : Bool := atMarker '-' spots || atMarker '.' spots

def skipBlanks (spots : List Spot) : List Spot := spots.dropWhile Spot.isBlank

/-- A comment, up to the end of its line. -/
def skipComment (spots : List Spot) : List Spot :=
  if startsWith '#' spots then spots.dropWhile (!·.isBreak) else spots

/-- Blanks, a comment and the break of the line, and nothing else. -/
def finishLine? (spots : List Spot) : Option (List Spot) :=
  match skipComment (skipBlanks spots) with
  | [] => some []
  | s :: rest => if s.isBreak then some rest else none

end Spots

/-- A single line feed is a space; of more breaks the first is dropped if it is a line feed. -/
def foldBreaks : List Char → List Char
  | [] => []
  | ['\n'] => [' ']
  | '\n' :: bs => bs
  | bs => bs

/-- Spacing on one line stays as it is. Of spacing over several lines only the breaks count. -/
def foldSpacing (run : List Spot) : List Char :=
  match Spots.text (run.filter Spot.isBreak) with
  | [] => Spots.text run
  | breaks => foldBreaks breaks

end SnippetLint.Yaml
