import SnippetLint.Yaml.Spot

/-! Block scalars: a header, and the lines that are indented below it. -/
namespace SnippetLint.Yaml

/-- What becomes of the breaks at the end. -/
inductive Chomping where
  | strip
  | clip
  | keep
deriving DecidableEq, Repr

namespace Block

def chomping? (c : Char) : Option Chomping :=
  match c with
  | '-' => some .strip
  | '+' => some .keep
  | _ => none

/-- The chomping and the indentation at the front, in either order. -/
def header? : List Spot → Option (Chomping × Option Nat × List Spot)
  | a :: b :: rest =>
    match chomping? a.char, chomping? b.char with
    | some c, _ =>
      if b.char.isDigit then indented c b.char rest else some (c, none, b :: rest)
    | none, second =>
      if a.char.isDigit then
        match second with
        | some c => indented c a.char rest
        | none => indented .clip a.char (b :: rest)
      else some (.clip, none, a :: b :: rest)
  | [a] =>
    match chomping? a.char with
    | some c => some (c, none, [])
    | none => if a.char.isDigit then indented .clip a.char [] else some (.clip, none, [a])
  | [] => some (.clip, none, [])
where
  indented (c : Chomping) (digit : Char) (rest : List Spot) :
      Option (Chomping × Option Nat × List Spot) :=
    if digit = '0' then none else some (c, some (digit.toNat - '0'.toNat), rest)

structure Gap where
  breaks : List Char
  /-- The widest indentation before or after one of the breaks. -/
  width : Nat
  rest : List Spot

/-- Empty lines, and the spaces of the next line up to `indent`. No tab may stand among these. -/
def gap? (indent : Option Nat) : List Spot → Option Gap
  | [] => some ⟨[], 0, []⟩
  | s :: rest =>
    let inside := indent.all (s.column < ·)
    if s.char = ' ' && inside then
      (gap? indent rest).map fun g => { g with width := max (s.column + 1) g.width }
    else if s.char = '\t' && inside then none
    else if s.isBreak then
      (gap? indent rest).map fun g =>
        { g with breaks := s.char :: g.breaks, width := max s.column g.width }
    else some ⟨[], s.column, s :: rest⟩

theorem length_gap? (indent : Option Nat) (spots : List Spot) :
    ∀ g ∈ gap? indent spots, g.rest.length ≤ spots.length := by
  fun_induction gap? indent spots with
  | case1 | case3 | case5 => simp
  | case2 _ _ _ _ ih | case4 _ _ _ _ _ _ ih =>
    intro r hr
    obtain ⟨g, hg, rfl⟩ := Option.map_eq_some_iff.1 hr
    exact Nat.le_succ_of_le (ih g hg)

structure Body where
  text : List Char
  /-- The break of the last line, and the empty lines after it. -/
  lastBreak : List Char
  breaks : List Char
  rest : List Spot

/-- The break of a line, and what follows it. -/
def lineBreak : List Spot → List Char × List Spot
  | [] => ([], [])
  | s :: rest => ([s.char], rest)

theorem length_lineBreak (spots : List Spot) : (lineBreak spots).2.length ≤ spots.length := by
  cases spots <;> simp [lineBreak]

/-- What stands between two lines. A folded scalar turns a line feed into a space, or drops it
before empty lines, unless one of the two lines begins with a blank. -/
def joint (folded blank : Bool) (lastBreak breaks : List Char) : List Char :=
  if folded && lastBreak == ['\n'] && !blank then
    if breaks.isEmpty then [' '] else breaks
  else lastBreak ++ breaks

/-- The lines that begin at the column `indent`. `b` is what was read before them, and
`blank` tells whether its last line begins with a blank. -/
def lines? (folded : Bool) (indent : Nat) (blank : Bool) (lastBreak breaks : List Char) :
    List Spot → Option Body
  | [] => some ⟨[], lastBreak, breaks, []⟩
  | s :: rest =>
    if s.column = indent then
      let line := s.char :: Spots.text (rest.takeWhile (!·.isBreak))
      let after := lineBreak (rest.dropWhile (!·.isBreak))
      match _h : gap? (some indent) after.2 with
      | none => none
      | some g =>
        (lines? folded indent s.isBlank after.1 g.breaks g.rest).map fun body =>
          { body with
            text := joint folded (blank || s.isBlank) lastBreak breaks ++ line ++ body.text }
    else some ⟨[], lastBreak, breaks, s :: rest⟩
termination_by spots => spots.length
decreasing_by
  have := length_gap? (some indent) _ _ _h
  have := length_lineBreak (rest.dropWhile (!·.isBreak))
  have := (List.dropWhile_suffix (l := rest) (!·.isBreak)).length_le
  grind

end Block

/-- The block scalar whose indicator has been read. Its lines stand at least at `floor`; a given
indentation counts from the block around it. -/
def block? (folded : Bool) (floor : Nat) (spots : List Spot) : Option (List Char × List Spot) := do
  let (chomping, indentation, rest) ← Block.header? spots
  let start ← Spots.finishLine? rest
  let given := indentation.map (floor - 1 + ·)
  let gap ← Block.gap? given start
  let indent := given.getD (max gap.width (max floor 1))
  let body ← Block.lines? folded indent false [] gap.breaks gap.rest
  let tail := match chomping with
    | .strip => []
    | .clip => body.lastBreak
    | .keep => body.lastBreak ++ body.breaks
  return (body.text ++ tail, body.rest)

end SnippetLint.Yaml
