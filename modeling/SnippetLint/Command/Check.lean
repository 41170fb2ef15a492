import SnippetLint.Analysis.Snippet
import SnippetLint.Command.Arguments
import SnippetLint.Files.Collect
import SnippetLint.Files.Tree
import SnippetLint.Report
import SnippetLint.Settings.Reader
import SnippetLint.Text.Quoted

/-! What a command sees and what it leaves behind, and the command that analyzes files and reports
on them. -/
namespace SnippetLint

structure World where
  look : String → Except FileError FileTree
  input : ByteArray
  /-- The folder in which the command is given. -/
  folder : String
  /-- The settings file of the user. -/
  userSettings : Option String
  color : Bool

/-- A file to be written; the folders up to it are made first. -/
structure NewFile where
  path : String
  text : String
deriving DecidableEq, Repr

structure Outcome where
  exit : Nat
  output : String
  errors : String
  newFile : Option NewFile
deriving DecidableEq, Repr

namespace Outcome

/-- Nothing is done, and the reason is told. -/
def failed (message : String) : Outcome := ⟨2, "", "Error: " ++ message ++ "\n", none⟩

end Outcome

namespace Check

inductive Format where
  | pretty
  | json
deriving DecidableEq, Repr

def Format.ofName? : String → Option Format
  | "pretty" => some pretty
  | "json" => some json
  | _ => none

/-- Why nothing is reported. -/
inductive Failure where
  | format (name : String)
  | language (e : UnsupportedLanguage)
  | settings (e : Settings.LoadError)
  | inputWithoutLanguage
  | inputUnreadable (why : FileError)
  | inaccessible (path : String) (why : FileError)
  | walk (e : WalkError)
  | unknownLanguage (path : String)
  | unreadable (path : String) (why : FileError)
deriving DecidableEq, Repr

def Failure.message : Failure → String
  | format name => "invalid format " ++ Text.quoted name ++ ", must be 'pretty' or 'json'"
  | language e => e.message
  | settings e => e.message
  | inputWithoutLanguage => "reading stdin requires --language"
  | inputUnreadable why => "failed to read stdin: " ++ why.message
  | inaccessible path why => "cannot access path " ++ path ++ ": " ++ why.message
  | walk e => e.message
  | unknownLanguage path => "cannot infer language of " ++ path ++ " (use --language)"
  | unreadable path why => "failed to read " ++ path ++ ": " ++ why.message

/-- What a run goes by. -/
structure Plan where
  language : Option Language
  title : Option String
  settings : Settings

namespace Plan

def snippetOfFile (p : Plan) (path : String) (content : Except FileError ByteArray) :
    Except Failure Snippet := do
  let language ← (p.language.or (Language.ofPath? path)).elim (.error (.unknownLanguage path)) .ok
  let code ← (content >>= textOf).mapError (.unreadable path)
  return ⟨code, language, path⟩

def snippetOfInput (p : Plan) (bytes : ByteArray) : Except Failure Snippet := do
  let language ← p.language.elim (.error .inputWithoutLanguage) .ok
  let code ← (textOf bytes).mapError .inputUnreadable
  return ⟨code, language, p.title.getD p.settings.defaultTitle⟩

/-- What a path names, or the files of the folder that it names. -/
def snippetsAt (p : Plan) (look : String → Except FileError FileTree) (path : String) :
    Except Failure (List Snippet) := do
  let t ← (look path).mapError (.inaccessible path)
  if t.isFolder then
    let files ← (FoundFile.collect p.settings path t).mapError .walk
    files.mapM fun f => p.snippetOfFile f.path f.content
  else
    return [← p.snippetOfFile path t.content]

/-- The snippets of the paths, in their order. A dash is the input, which is empty when it is read
again. -/
def snippets (p : Plan) (look : String → Except FileError FileTree) (input : ByteArray) :
    List String → Except Failure (List Snippet)
  | [] => .ok []
  | path :: paths => do
    if path = "-" then
      let s ← p.snippetOfInput input
      return s :: (← snippets p look .empty paths)
    else
      let ss ← p.snippetsAt look path
      return ss ++ (← snippets p look input paths)

/-- A title that is given is that of a single snippet. -/
def retitle (p : Plan) : List Snippet → List Snippet
  | [s] => [{ s with title := p.title.getD s.title }]
  | ss => ss

end Plan

def report (color : Bool) (rs : List Result) : Format → String
  | .pretty => Report.pretty color rs
  | .json => (Report.json rs).pretty ++ "\n"

/-- The checks of the arguments in their order, then the snippets. -/
def prepare (w : World) (a : CheckArguments) :
    Except Failure (Format × Settings × List Snippet) := do
  let format ← (Format.ofName? a.format).elim (.error (.format a.format)) .ok
  let language ← (a.language.mapM Language.ofName).mapError .language
  let settings ← (Settings.discover w.look a.settings
    (Settings.candidates w.folder w.userSettings)).mapError .settings
  let plan : Plan := ⟨language, a.title, settings⟩
  return (format, settings, plan.retitle (← plan.snippets w.look w.input a.paths))

def run (parse : Parser) (w : World) (a : CheckArguments) : Outcome :=
  match prepare w a with
  | .error e => .failed e.message
  | .ok (_, _, []) => ⟨0, "", "Warning: no files to analyze\n", none⟩
  | .ok (format, settings, ss) =>
    let rs := Snippet.analyzeAll parse settings ss
    ⟨exitCode a.failOnWarnings rs, report w.color rs format, "", none⟩

end Check
end SnippetLint
