import SnippetLint.Command.Arguments
import SnippetLint.Command.Check
import SnippetLint.Report
import SnippetLint.Settings.Template

/-! What is told about the use of the program, the command that writes a settings file, and running
a command. -/
namespace SnippetLint

def usage : String :=
  "Syntax diagnostics for JavaScript, TypeScript, C and C++ snippets\n\n" ++
  "Usage: commitlens check [OPTIONS] <PATHS>...\n" ++
  "       commitlens init [--output <OUTPUT>]\n\n" ++
  "Options of check:\n" ++
  "  -l, --language <LANGUAGE>  javascript, typescript, cpp or c, for every input\n" ++
  "  -t, --title <TITLE>        Title of a single snippet\n" ++
  "  -f, --format <FORMAT>      pretty or json\n" ++
  "  -s, --settings <SETTINGS>  Path of a settings file\n" ++
  "      --fail-on-warnings     Exit non-zero on any warning\n"

namespace UsageError

def reason : UsageError → String
  | helpAsked | nothingAsked => ""
  | versionAsked => "commitlens " ++ SnippetLint.version
  | missingCommand => "error: a command is required"
  | unknownCommand => "error: unrecognized command"
  | unknownArgument => "error: unexpected argument"
  | missingPath => "error: a path is required"
  | badValue => "error: a value is missing or empty"
  | needlessValue => "error: a value where none is taken"
  | repeated => "error: an argument cannot be used twice"

/-- Help and the version are answers, the rest are errors. -/
def exit : UsageError → Nat
  | helpAsked | versionAsked => 0
  | _ => 2

def message (e : UsageError) : String :=
  match e with
  | versionAsked => e.reason ++ "\n"
  | helpAsked | nothingAsked => usage
  | _ => e.reason ++ "\n\n" ++ usage

end UsageError

namespace Init

inductive Failure where
  | alreadyThere (path : String)
  | noFolder (path : String) (why : FileError)
  | unwritable (path : String) (why : FileError)
deriving DecidableEq, Repr

def Failure.message : Failure → String
  | alreadyThere path => "file already exists: " ++ path ++
    "\nRemove it or use --output to specify a different path"
  | noFolder path why => "failed to create directory " ++ path ++ ": " ++ why.message
  | unwritable path why => "failed to write " ++ path ++ ": " ++ why.message

/-- Why the folder cannot be made. What is missing on the way to it is made, too. -/
def folderError? (look : String → Except FileError FileTree) (path : String) : Option FileError :=
  match look path with
  | .ok t => if t.isFolder then none else some .alreadyThere
  | .error .missing => none
  | .error why => some why

/-- Why no file can have the path, which leads to nothing yet. -/
def fileError? (path : String) (why : FileError) : Option FileError :=
  match (Path.parts path).getLast? with
  | some "." => some why
  | some "" | some ".." => some .isFolder
  | _ => none

def failure? (look : String → Except FileError FileTree) (path : String) : Option Failure :=
  match look path with
  | .ok _ => some (.alreadyThere path)
  | .error why =>
    let folder := Path.parent path
    let noFolder := if Path.isIdle folder then none else folderError? look folder
    (noFolder.map (.noFolder folder)).or ((fileError? path why).map (.unwritable path))

def advice (path : String) : String :=
  "Created " ++ path ++ "\n\nNext steps:\n  1. Edit " ++ path ++
    " to turn checks on or off\n  2. Run: commitlens check . --settings " ++ path ++ "\n"

def run (w : World) (path : String) : Outcome :=
  match failure? w.look path with
  | some e => .failed e.message
  | none => ⟨0, advice path, "", some ⟨path, Settings.template⟩⟩

end Init

namespace Command

def run (parse : Parser) (w : World) : Command → Outcome
  | check a => Check.run parse w a
  | init path => Init.run w path

/-- All paths that a run may look at. -/
def paths (folder : String) (userSettings : Option String) : Command → List String
  | check a =>
    a.paths.filter (· != "-") ++
      a.settings.elim (Settings.candidates folder userSettings) fun path => [path]
  | init path => [path, Path.parent path]

/-- Whether the input is read. -/
def readsInput : Command → Bool
  | check a => a.paths.contains "-"
  | init _ => false

end Command
end SnippetLint
