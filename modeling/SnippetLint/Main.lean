import SnippetLint.Command.Run

/-! The program: its arguments, the files that they name, and what a run leaves behind. -/
namespace SnippetLint

def fileErrorOf : IO.Error → FileError
  | .inappropriateType .. => .notFolder
  | .permissionDenied .. => .denied
  | _ => .missing

def contentAt (path : String) : IO (Except FileError ByteArray) := do
  return (← (IO.FS.readBinFile path).toBaseIO).mapError fileErrorOf

/-- What stands at a path, without the folders that are skipped. What is neither a file nor a folder
is read only if the path itself leads to it. -/
partial def treeAt (path : String) (inside : Bool) : IO FileTree := do
  let real ← IO.FS.realPath path
  match (← real.metadata).type with
  | .dir =>
    match ← real.readDir.toBaseIO with
    | .error e => return .lockedFolder (fileErrorOf e)
    | .ok found =>
      let entries ← found.toList.filterM fun e =>
        return !(FoundFile.isSkippedFolder e.fileName && (← e.path.isDir))
      return .folder (← entries.mapM fun e => do
        return (e.fileName, ← treeAt e.path.toString true))
  | .file =>
    match ← contentAt real.toString with
    | .error why => return .lockedFile why
    | .ok bytes => return .file bytes
  | _ =>
    let content ← if inside then pure (.ok .empty) else contentAt real.toString
    return .special content

/-- What stands at a path; reading it tells why nothing does. -/
def lookAt (path : String) : IO (Except FileError FileTree) := do
  try return .ok (← treeAt path false)
  catch _ =>
    try return .ok (.file (← IO.FS.readBinFile path))
    catch e => return .error (fileErrorOf e)

def configFolder : IO (Option String) := do
  match ← IO.getEnv "XDG_CONFIG_HOME", ← IO.getEnv "HOME" with
  | some folder, _ => return some folder
  | none, home => return home.map (Path.join · ".config")

/-- Colors are for a terminal, unless they are refused or asked for. -/
def wantsColor : IO Bool := do
  if (← IO.getEnv "NO_COLOR").isSome then return false
  if (← IO.getEnv "CLICOLOR_FORCE").any (· != "0") then return true
  (← IO.getStdout).isTty

partial def readAll (input : IO.FS.Stream) (done : ByteArray) : IO ByteArray := do
  let more ← input.read 65536
  if more.isEmpty then return done
  readAll input (done ++ more)

def worldOf (c : Command) : IO World := do
  let folder := (← IO.currentDir).toString
  let userSettings := (← configFolder).map fun f =>
    Path.join (Path.join f "commitlens") "commitlens.yaml"
  let seen ← (c.paths folder userSettings).mapM fun path => do return (path, ← lookAt path)
  let input ← if c.readsInput then readAll (← IO.getStdin) .empty else pure .empty
  return ⟨fun path => (seen.lookup path).getD (.error .missing), input, folder, userSettings,
    ← wantsColor⟩

/-- No grammar of a script language is at hand. -/
def noParser : Parser := fun _ _ => none

def finish (o : Outcome) : IO UInt32 := do
  if let some f := o.newFile then
    let folder := Path.parent f.path
    unless folder.isEmpty do IO.FS.createDirAll folder
    IO.FS.writeFile f.path f.text
  IO.print o.output
  IO.eprint o.errors
  return o.exit.toUInt32

end SnippetLint

def main (args : List String) : IO UInt32 := do
  match SnippetLint.Command.ofArguments args with
  | .error e =>
    if e.exit = 0 then IO.print e.message else IO.eprint e.message
    return e.exit.toUInt32
  | .ok c => SnippetLint.finish (c.run SnippetLint.noParser (← SnippetLint.worldOf c))
