import SnippetLint.Yaml.Spot

/-! Plain scalars: words without quotes, which may go on over several lines. -/
namespace SnippetLint.Yaml

structure Plain where
  text : List Char
  /-- A line ended after the last word. -/
  endsLine : Bool
  rest : List Spot

namespace Plain

def flowIndicators : List Char := [',', '[', ']', '{', '}']

/-- A colon that ends the word before it. -/
def endsKey (c : Char) (rest : List Spot) : Bool := c == ':' && Spots.atSpacing rest

/-- The word at the front. Between brackets, a colon right before an indicator is refused. -/
def word? (inFlow : Bool) : List Spot → Option (List Char × List Spot)
  | [] => some ([], [])
  | s :: rest =>
    if s.isSpacing then some ([], s :: rest)
    else if inFlow && s.char == ':' && Spots.startsWithAny ('?' :: flowIndicators) rest then none
    else if endsKey s.char rest || (inFlow && flowIndicators.contains s.char) then
      some ([], s :: rest)
    else (word? inFlow rest).map fun r => (s.char :: r.1, r.2)

theorem length_word? (inFlow : Bool) (spots : List Spot) :
    ∀ r ∈ word? inFlow spots, r.2.length ≤ spots.length := by
  fun_induction word? inFlow spots with
  | case1 | case2 | case3 | case4 => simp
  | case5 _ _ _ _ _ ih =>
    intro r hr
    obtain ⟨w, hw, rfl⟩ := Option.map_eq_some_iff.1 hr
    exact Nat.le_succ_of_le (ih w hw)

/-- A tab at the start of a line, left of where the scalar may stand. -/
def hasStrayTab (floor : Nat) (run : List Spot) : Bool :=
  (run.dropWhile (!·.isBreak)).any fun s => s.char == '\t' && s.column < floor

/-- The words after the first. Outside brackets they may not stand left of `floor`. -/
def more? (inFlow : Bool) (floor : Nat) : List Spot → Option Plain
  | [] => some ⟨[], false, []⟩
  | s :: after =>
    if s.isSpacing then
      let run := s :: after.takeWhile Spot.isSpacing
      let next := after.dropWhile Spot.isSpacing
      let stop : Plain := ⟨[], run.any Spot.isBreak, next⟩
      if hasStrayTab floor run then none
      else if (!inFlow && next.head?.any (·.column < floor)) || Spots.atDocumentMarker next ||
          Spots.startsWith '#' next then some stop
      else
        match _h : word? inFlow next with
        | none => none
        | some ([], _) => some stop
        | some (w, rest) =>
          (more? inFlow floor rest).map fun p => { p with text := foldSpacing run ++ w ++ p.text }
    else some ⟨[], false, s :: after⟩
termination_by spots => spots.length
decreasing_by
  have := length_word? inFlow next _ _h
  have := (List.dropWhile_suffix (l := after) Spot.isSpacing).length_le
  grind

end Plain

/-- The plain scalar at the front. -/
def plain? (inFlow : Bool) (floor : Nat) (spots : List Spot) : Option Plain := do
  let (w, rest) ← Plain.word? inFlow spots
  let p ← Plain.more? inFlow floor rest
  return { p with text := w ++ p.text }

end SnippetLint.Yaml
