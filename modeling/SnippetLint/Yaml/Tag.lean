import SnippetLint.Yaml.Spot

/-! Tags as they are written, directives, the names of anchors, and the tokens of a YAML text, in
which indentation shows as the beginnings and ends of blocks. -/
namespace SnippetLint.Yaml

/-- A tag's handle stands for what a directive says. A tag without one is the suffix alone. -/
structure Tag where
  handle : String
  suffix : String
deriving DecidableEq, Repr

namespace Tag

def uriMarks : List Char :=
  [';', '/', '?', ':', '@', '&', '=', '+', '$', '.', '!', '~', '*', '\'', '(', ')']

/-- How many octets of a character's UTF-8 form follow the octet `n`; `pending` are due. -/
def following? (pending n : Nat) : Option Nat :=
  if pending ≠ 0 then if n / 0x40 = 2 then some (pending - 1) else none
  else if n < 0x80 then some 0
  else if n / 0x20 = 6 then some 1
  else if n / 0x10 = 14 then some 2
  else if n / 0x08 = 30 then some 3
  else none

/-- The longest piece of a URI. An escaped octet is the character of that number. -/
def uriFrom? (verbatim : Bool) (pending : Nat) : List Spot → Option (List Char × List Spot)
  | [] => if pending = 0 then some ([], []) else none
  | s :: rest =>
    if s.char = '%' then
      match rest with
      | a :: b :: more => do
        let n := 16 * (← hexDigit? a.char) + (← hexDigit? b.char)
        let due ← following? pending n
        let r ← uriFrom? verbatim due more
        return (Char.ofNat n :: r.1, r.2)
      | _ => none
    else if pending ≠ 0 then none
    else if s.isName || uriMarks.contains s.char ||
        (verbatim && [',', '[', ']'].contains s.char) then
      (uriFrom? verbatim pending rest).map fun r => (s.char :: r.1, r.2)
    else some ([], s :: rest)

/-- An octet of zero ends what a URI says. -/
def uriText (cs : List Char) : String := String.ofList (cs.takeWhile (· != '\x00'))

def uri? (verbatim : Bool) (spots : List Spot) : Option (String × List Spot) := do
  let (cs, rest) ← uriFrom? verbatim 0 spots
  if cs.isEmpty then none else return (uriText cs, rest)

/-- What follows an exclamation mark: a name, and perhaps another mark. -/
def readHandle (spots : List Spot) : List Char × List Spot :=
  let name := Spots.text (spots.takeWhile Spot.isName)
  match spots.dropWhile Spot.isName with
  | s :: rest => if s.char = '!' then (name ++ ['!'], rest) else (name, s :: rest)
  | [] => (name, [])

/-- The tag whose exclamation mark has been read. -/
def body? : List Spot → Option (Tag × List Spot)
  | [] => some (⟨"", "!"⟩, [])
  | s :: rest =>
    if s.char = '<' then do
      let (suffix, after) ← uri? true rest
      if Spots.startsWith '>' after then return (⟨"", suffix⟩, after.drop 1) else none
    else do
      let (name, after) := readHandle (s :: rest)
      if name.getLast? = some '!' then
        let (suffix, after) ← uri? false after
        return (⟨String.ofList ('!' :: name), suffix⟩, after)
      else
        let (more, after) ← uriFrom? false 0 after
        let suffix := uriText (name ++ more)
        return (if suffix.isEmpty then ⟨"", "!"⟩ else ⟨"!", suffix⟩, after)

/-- A tag ends at spacing, or between brackets at a comma. -/
def read? (inFlow : Bool) (spots : List Spot) : Option (Tag × List Spot) := do
  let (tag, rest) ← body? spots
  if Spots.atSpacing rest || (inFlow && Spots.startsWith ',' rest) then return (tag, rest)
  else none

end Tag

inductive Directive where
  | version (major minor : Nat)
  | tag (handle meaning : String)
deriving DecidableEq, Repr

namespace Directive

/-- At most nine digits. -/
def number? (spots : List Spot) : Option (Nat × List Spot) :=
  let digits := spots.takeWhile (·.char.isDigit)
  if digits.isEmpty || digits.length > 9 then none
  else some (digits.foldl (fun n s => 10 * n + (s.char.toNat - '0'.toNat)) 0,
    spots.dropWhile (·.char.isDigit))

def version? (spots : List Spot) : Option (Directive × List Spot) := do
  let (major, rest) ← number? (Spots.skipBlanks spots)
  if Spots.startsWith '.' rest then
    let (minor, rest) ← number? (rest.drop 1)
    return (version major minor, rest)
  else none

def tag? (spots : List Spot) : Option (Directive × List Spot) :=
  match Spots.skipBlanks spots with
  | [] => none
  | s :: rest => do
    let (name, after) := Tag.readHandle rest
    if s.char = '!' && (name.isEmpty || name.getLast? = some '!') &&
        Spots.startsWithAny [' ', '\t'] after then
      let (meaning, after) ← Tag.uri? true (Spots.skipBlanks after)
      if Spots.atSpacing after then
        return (tag (String.ofList ('!' :: name)) meaning, after)
      else none
    else none

/-- The directive whose percent sign has been read, with the rest of its line. -/
def read? (spots : List Spot) : Option (Directive × List Spot) := do
  let rest := spots.dropWhile Spot.isName
  let name := String.ofList (Spots.text (spots.takeWhile Spot.isName))
  let (d, after) ← if !Spots.atSpacing rest then none
    else if name = "YAML" then version? rest
    else if name = "TAG" then tag? rest
    else none
  return (d, ← Spots.finishLine? after)

end Directive

/-- The name of an anchor or an alias, whose sign has been read. -/
def anchorName? (spots : List Spot) : Option (String × List Spot) :=
  let rest := spots.dropWhile Spot.isName
  let name := Spots.text (spots.takeWhile Spot.isName)
  if !name.isEmpty && (Spots.atSpacing rest ||
      Spots.startsWithAny ['?', ':', ',', ']', '}', '%', '@', '\x60'] rest) then
    some (String.ofList name, rest)
  else none

inductive Style where
  | plain
  | quoted
  | literal
  | folded
deriving DecidableEq, Repr

inductive Token where
  | directive (d : Directive)
  | documentStart
  | documentEnd
  | sequenceStart
  | mappingStart
  | blockEnd
  | openBracket
  | closeBracket
  | openBrace
  | closeBrace
  | entry
  | comma
  | key
  | value
  | alias (name : String)
  | anchor (name : String)
  | tag (t : Tag)
  | scalar (style : Style) (text : String)
deriving DecidableEq, Repr

end SnippetLint.Yaml
