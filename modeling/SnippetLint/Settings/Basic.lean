import SnippetLint.Glob.Match
import SnippetLint.Text.Quoted

/-! Settings of the analysis: the standard ones, which paths they exclude, what makes them
unusable. -/
namespace SnippetLint

/-- The advisory passes; each can be turned off. -/
structure Checks where
  typos : Bool
  missingSemicolons : Bool
  undefinedIdentifiers : Bool
  bestPractices : Bool
  declarationsFirst : Bool
  prototypes : Bool
  lineComments : Bool
deriving DecidableEq, Repr

def Checks.all : Checks := ⟨true, true, true, true, true, true, true⟩

structure Settings where
  version : String
  /-- Characters of a message that are compared to tell whether it repeats another. -/
  dedupLength : Nat
  /-- The title of a snippet that has none. -/
  defaultTitle : String
  /-- Patterns of paths that are not looked at. -/
  excludedPaths : List String
  checks : Checks
deriving DecidableEq, Repr

namespace Settings

def standard : Settings where
  version := "1"
  dedupLength := 20
  defaultTitle := "Untitled Snippet"
  excludedPaths := ["**/node_modules/**"]
  checks := .all

/-- A pattern that cannot be read excludes nothing. -/
def excludes (s : Settings) (path : String) : Bool :=
  s.excludedPaths.any fun pattern =>
    match Glob.parse pattern with
    | .ok tokens => Glob.fits tokens path
    | .error _ => false

inductive Invalid where
  | noDedupLength
  | badPattern (pattern : String) (why : Glob.Error)
deriving DecidableEq, Repr

namespace Invalid

def message : Invalid → String
  | noDedupLength => "dedup_prefix_len must be at least 1"
  | badPattern pattern why =>
    "invalid excluded_paths pattern " ++ Text.quoted pattern ++ ": " ++ why.message pattern

end Invalid

def badPattern? (pattern : String) : Option Invalid :=
  match Glob.parse pattern with
  | .ok _ => none
  | .error e => some (.badPattern pattern e)

/-- The first thing that is wrong. -/
def invalid? (s : Settings) : Option Invalid :=
  if s.dedupLength = 0 then some .noDedupLength else s.excludedPaths.findSome? badPattern?

end Settings
end SnippetLint
