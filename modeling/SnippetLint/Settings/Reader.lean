import SnippetLint.Files.Tree
import SnippetLint.Settings.Basic
import SnippetLint.Text.Search
import SnippetLint.Yaml.Node.Reader

/-! Settings from YAML, and which file they come from. What a text does not set is as in the
standard settings. -/
namespace SnippetLint

namespace Settings

inductive Error where
  | malformed
  | invalid (why : Invalid)
deriving DecidableEq, Repr

open Yaml.Document (member?)

def checks? (d : Yaml.Document) (n : Yaml.Node) : Option Checks := do
  let ms ← d.members? n
  let on (name : String) := member? ms name true d.truth?
  return ⟨← on "typos", ← on "missing_semicolons", ← on "undefined_identifiers",
    ← on "best_practices", ← on "declarations_first", ← on "prototypes", ← on "line_comments"⟩

def ofNode? (d : Yaml.Document) (n : Yaml.Node) : Option Settings := do
  let ms ← d.members? n
  return {
    version := ← member? ms "version" standard.version d.string?
    dedupLength := ← member? ms "dedup_prefix_len" standard.dedupLength d.nat?
    defaultTitle := ← member? ms "default_title" standard.defaultTitle d.string?
    excludedPaths := ← member? ms "excluded_paths" standard.excludedPaths fun n => do
      (← d.items? n).mapM d.string?
    checks := ← member? ms "checks" standard.checks (checks? d) }

def ofDocument? (d : Yaml.Document) : Option Settings := d.root?.elim (some standard) (ofNode? d)

/-- A text of nothing but blanks sets nothing. -/
def ofYaml? (text : List Char) : Option Settings :=
  if text.all Text.isBlank then some standard
  else (Yaml.Document.ofText? text).bind ofDocument?

def ofText (text : List Char) : Except Error Settings :=
  match ofYaml? text with
  | none => .error .malformed
  | some s =>
    match s.invalid? with
    | some why => .error (.invalid why)
    | none => .ok s

inductive LoadError where
  | unreadable (path : String) (why : FileError)
  | refused (path : String) (why : Error)
deriving DecidableEq, Repr

namespace Error

def message : Error → String
  | malformed => "not settings in YAML"
  | invalid why => why.message

end Error

def LoadError.message : LoadError → String
  | unreadable path why => "failed to read settings file " ++ path ++ ": " ++ why.message
  | refused path why => "invalid settings file " ++ path ++ ": " ++ why.message

/-- Where settings are looked for without being told, the first place first. -/
def candidates (folder : String) (user : Option String) : List String :=
  [Path.join folder "commitlens.yaml", Path.join folder ".commitlens.yaml"] ++ user.toList

def load (look : String → Except FileError FileTree) (path : String) :
    Except LoadError Settings := do
  let text ← (look path >>= FileTree.text).mapError (.unreadable path)
  (ofText text.toList).mapError (.refused path)

/-- The settings of a file that is named, or else of the first candidate that is a file. -/
def discover (look : String → Except FileError FileTree) (named : Option String)
    (candidates : List String) : Except LoadError Settings :=
  let isFile (path : String) : Bool := (look path).toOption.any FileTree.isFile
  match named.or (candidates.find? isFile) with
  | some path => load look path
  | none => .ok standard

end Settings
end SnippetLint
