/-! The arguments of the command line. -/
namespace SnippetLint

structure CheckArguments where
  paths : List String
  language : Option String
  title : Option String
  format : String
  settings : Option String
  failOnWarnings : Bool
deriving DecidableEq, Repr

inductive Command where
  | check (a : CheckArguments)
  | init (output : String)
deriving DecidableEq, Repr

/-- Why arguments do not make a command. -/
inductive UsageError where
  | helpAsked
  | versionAsked
  | nothingAsked
  | missingCommand
  | unknownCommand
  | unknownArgument
  | missingPath
  | badValue
  | needlessValue
  | repeated
deriving DecidableEq, Repr

inductive ValueKind where
  | none
  | text
  /-- A path is not empty. -/
  | path
deriving DecidableEq, Repr

structure Switch where
  name : String
  letter : Option Char
  kind : ValueKind
deriving DecidableEq, Repr

namespace Switch

def help : Switch := ⟨"help", some 'h', .none⟩
def version : Switch := ⟨"version", some 'V', .none⟩
def verbose : Switch := ⟨"verbose", some 'v', .none⟩
def language : Switch := ⟨"language", some 'l', .text⟩
def title : Switch := ⟨"title", some 't', .text⟩
def format : Switch := ⟨"format", some 'f', .text⟩
def settings : Switch := ⟨"settings", some 's', .path⟩
def failOnWarnings : Switch := ⟨"fail-on-warnings", none, .none⟩
def output : Switch := ⟨"output", some 'o', .path⟩

def forProgram : List Switch := [help, version, verbose]
def forCheck : List Switch :=
  [help, verbose, language, title, format, settings, failOnWarnings]
def forInit : List Switch := [help, verbose, output]

end Switch

/-- Arguments whose values have not been looked at yet. -/
inductive Pending where
  | switch (s : Switch) (value : Option String)
  | paths (values : List String)
deriving DecidableEq, Repr

structure Given where
  switches : List (Switch × String)
  paths : List String
  pending : Option Pending
deriving DecidableEq, Repr

namespace Given

def nothing : Given := ⟨[], [], none⟩

def value? (g : Given) (s : Switch) : Option String := g.switches.lookup s

def has (g : Given) (s : Switch) : Bool := (g.value? s).isSome

/-- A switch may be given once. -/
def add (g : Given) (s : Switch) (value : String) : Except UsageError Given :=
  if g.has s then .error .repeated
  else if s.kind = .path ∧ value.isEmpty then .error .badValue
  else .ok { g with switches := g.switches ++ [(s, value)] }

def settle (g : Given) : Except UsageError Given :=
  let settled := { g with pending := none }
  match g.pending with
  | none => .ok settled
  | some (.switch _ none) => .error .badValue
  | some (.switch s (some value)) => settled.add s value
  | some (.paths values) =>
    if values.any String.isEmpty then .error .badValue
    else .ok { settled with paths := settled.paths ++ values }

/-- A switch with a value of its own, or one that takes none. -/
def give (g : Given) (s : Switch) (value : Option String) : Except UsageError Given := do
  if s.kind = .none then
    if value.isSome then throw .needlessValue
    let g ← g.settle
    if s = .help then throw .helpAsked
    if s = .version then throw .versionAsked
    g.add s ""
  else
    let g ← g.settle
    match value with
    | some v => g.add s v
    | none => return { g with pending := some (.switch s none) }

/-- Letters after a single dash. What follows the letter of a switch with a value is the value,
and an equals sign before it does not count. -/
def letters (known : List Switch) (g : Given) : List Char → Except UsageError Given
  | [] => .ok g
  | c :: cs =>
    match known.find? (·.letter == some c) with
    | none => .error .unknownArgument
    | some s =>
      if s.kind = .none then do letters known (← g.give s none) cs
      else
        match cs with
        | [] => g.give s none
        | '=' :: v => g.give s (some (String.ofList v))
        | v => g.give s (some (String.ofList v))

/-- A name after two dashes, with a value after an equals sign. -/
def named (known : List Switch) (g : Given) (text : List Char) : Except UsageError Given :=
  let name := String.ofList (text.takeWhile (· != '='))
  let value := match text.dropWhile (· != '=') with
    | [] => none
    | _ :: v => some (String.ofList v)
  match known.find? (·.name == name) with
  | none => .error .unknownArgument
  | some s => g.give s value

def path (g : Given) (value : String) : Except UsageError Given :=
  match g.pending with
  | some (.paths values) => .ok { g with pending := some (.paths (values ++ [value])) }
  | _ => do return { ← g.settle with pending := some (.paths [value]) }

/-- An argument that is no switch: a value that is due, or a path if these are allowed. -/
def plain (pathsAllowed : Bool) (g : Given) (value : String) : Except UsageError Given :=
  match g.pending with
  | some (.switch s none) => .ok { g with pending := some (.switch s (some value)) }
  | _ => if pathsAllowed then g.path value else .error .unknownArgument

/-- The switches and paths of a command. After two dashes there are only paths. -/
def read (known : List Switch) (pathsAllowed : Bool) (g : Given) :
    List String → Except UsageError Given
  | [] => g.settle
  | arg :: args =>
    match arg.toList with
    | ['-', '-'] =>
      if pathsAllowed then do (← args.foldlM path g).settle
      else if args.isEmpty then g.settle
      else .error .unknownArgument
    | '-' :: '-' :: name => do read known pathsAllowed (← g.named known name) args
    | '-' :: c :: cs => do read known pathsAllowed (← g.letters known (c :: cs)) args
    | _ => do read known pathsAllowed (← g.plain pathsAllowed arg) args

end Given

namespace Command

def checkOf (args : List String) : Except UsageError Command := do
  let g ← Given.read Switch.forCheck true .nothing args
  if g.paths.isEmpty then throw .missingPath
  return check {
    paths := g.paths
    language := g.value? .language
    title := g.value? .title
    format := (g.value? .format).getD "pretty"
    settings := g.value? .settings
    failOnWarnings := g.has .failOnWarnings }

def initOf (args : List String) : Except UsageError Command := do
  let g ← Given.read Switch.forInit false .nothing args
  return init ((g.value? .output).getD "commitlens.yaml")

/-- Help may be asked for about a command. -/
def helpOf : List String → UsageError
  | [] => .helpAsked
  | arg :: args =>
    if arg = "help" then if args.isEmpty then .helpAsked else .unknownCommand
    else if ["check", "lint", "init"].contains arg ∧ args.isEmpty then .helpAsked
    else .unknownCommand

def isName (arg : String) : Bool := ["check", "lint", "init", "help"].contains arg

/-- The switches before the command, and the command. -/
def read (g : Given) : List String → Except UsageError Command
  | [] => .error (if g.switches.isEmpty then .nothingAsked else .missingCommand)
  | arg :: args =>
    match arg.toList with
    | ['-', '-'] =>
      match args with
      | [] => .error (if g.switches.isEmpty then .nothingAsked else .missingCommand)
      | next :: _ => .error (if isName next then .unknownArgument else .unknownCommand)
    | '-' :: '-' :: name => do read (← g.named Switch.forProgram name) args
    | '-' :: c :: cs => do read (← g.letters Switch.forProgram (c :: cs)) args
    | _ =>
      if arg = "check" ∨ arg = "lint" then checkOf args
      else if arg = "init" then initOf args
      else if arg = "help" then .error (helpOf args)
      else .error .unknownCommand

/-- The command that the arguments of the program ask for. -/
def ofArguments (args : List String) : Except UsageError Command := read .nothing args

end Command
end SnippetLint
