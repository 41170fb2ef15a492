import SnippetLint.Yaml.Spot

/-! Quoted scalars. Both kinds may go on over several lines, and neither over a document's end. -/
namespace SnippetLint.Yaml

/-- The text, and what follows the closing quote. -/
def singleQuoted? : List Spot → Option (List Char × List Spot)
  | [] => none
  | s :: rest =>
    if Spots.atDocumentMarker (s :: rest) then none
    else if s.char = '\'' then
      match rest with
      | q :: more =>
        if q.char = '\'' then (singleQuoted? more).map fun r => ('\'' :: r.1, r.2)
        else some ([], q :: more)
      | [] => some ([], [])
    else if s.isSpacing then
      let run := s :: rest.takeWhile Spot.isSpacing
      (singleQuoted? (rest.dropWhile Spot.isSpacing)).map fun r => (foldSpacing run ++ r.1, r.2)
    else (singleQuoted? rest).map fun r => (s.char :: r.1, r.2)
termination_by spots => spots.length
decreasing_by
  · simp only [List.length_cons]; omega
  · exact Nat.lt_succ_of_le (List.dropWhile_suffix _).length_le
  · exact Nat.lt_succ_self _

namespace Escape

def plain? : Char → Option Char
  | '0' => some '\u0000'
  | 'a' => some '\u0007'
  | 'b' => some '\u0008'
  | 't' | '\t' => some '\t'
  | 'n' => some '\n'
  | 'v' => some '\u000b'
  | 'f' => some '\u000c'
  | 'r' => some '\r'
  | 'e' => some '\u001b'
  | ' ' => some ' '
  | '"' => some '"'
  | '/' => some '/'
  | '\\' => some '\\'
  | 'N' => some '\u0085'
  | '_' => some '\u00a0'
  | 'L' => some '\u2028'
  | 'P' => some '\u2029'
  | _ => none

/-- How many hexadecimal digits name the character. -/
def digits? : Char → Option Nat
  | 'x' => some 2
  | 'u' => some 4
  | 'U' => some 8
  | _ => none

def hex? (cs : List Char) : Option Nat :=
  cs.foldlM (fun n c => (hexDigit? c).map (16 * n + ·)) 0

def ofCode? (n : Nat) : Option Char := if n.isValidChar then some (Char.ofNat n) else none

/-- The character that the letter `c` after a backslash stands for, and what follows. -/
def read? (c : Char) (rest : List Spot) : Option (Char × List Spot) :=
  match plain? c, digits? c with
  | some d, _ => some (d, rest)
  | none, some n =>
    if rest.length < n then none
    else ((hex? (Spots.text (rest.take n))).bind ofCode?).map (·, rest.drop n)
  | none, none => none

theorem length_read? (c : Char) (rest : List Spot) :
    ∀ r ∈ read? c rest, r.2.length ≤ rest.length := by
  unfold read?
  split
  · simp
  · split
    · simp
    · intro r hr
      obtain ⟨_, _, rfl⟩ := Option.map_eq_some_iff.1 hr
      simp
  · simp

end Escape

/-- The text, and what follows the closing quote. A backslash takes the break after it away, and
the blanks after that. -/
def doubleQuoted? : List Spot → Option (List Char × List Spot)
  | [] => none
  | s :: rest =>
    if Spots.atDocumentMarker (s :: rest) then none
    else if s.char = '"' then some ([], rest)
    else if s.char = '\\' then
      match rest with
      | [] => none
      | e :: more =>
        if e.isBreak then
          let breaks := Spots.text ((more.takeWhile Spot.isSpacing).filter Spot.isBreak)
          (doubleQuoted? (more.dropWhile Spot.isSpacing)).map fun r => (breaks ++ r.1, r.2)
        else
          match _h : Escape.read? e.char more with
          | none => none
          | some (c, after) => (doubleQuoted? after).map fun r => (c :: r.1, r.2)
    else if s.isSpacing then
      let run := s :: rest.takeWhile Spot.isSpacing
      (doubleQuoted? (rest.dropWhile Spot.isSpacing)).map fun r => (foldSpacing run ++ r.1, r.2)
    else (doubleQuoted? rest).map fun r => (s.char :: r.1, r.2)
termination_by spots => spots.length
decreasing_by
  · have := (List.dropWhile_suffix (l := more) Spot.isSpacing).length_le
    simp; omega
  · have : after.length ≤ more.length := Escape.length_read? e.char more _ _h
    simp; omega
  · exact Nat.lt_succ_of_le (List.dropWhile_suffix _).length_le
  · exact Nat.lt_succ_self _

end SnippetLint.Yaml
