/-! Paths, as text with slashes between their parts, and trees of files, with what a path names in
them. -/
namespace SnippetLint

namespace Path

def parts (path : String) : List String := (path.toList.splitOn '/').map String.ofList

/-- A part that leads nowhere. -/
def isIdle (part : String) : Bool := part.isEmpty || part == "."

def join (folder name : String) : String :=
  if folder.isEmpty || folder.toList.getLast? == some '/' then folder ++ name
  else folder ++ "/" ++ name

/-- The name of what the path leads to; a step upwards has none. -/
def name? (path : String) : Option String :=
  ((parts path).filter (!isIdle ·)).getLast?.filter (· != "..")

/-- What follows the last dot of a name, unless the name begins with it. -/
def nameExtension? (name : String) : Option String :=
  let last := (name.toList.reverse.takeWhile (· != '.')).reverse
  if last.length + 1 < name.length then some (String.ofList last) else none

def extension? (path : String) : Option String := (name? path).bind nameExtension?

/-- The parts without the idle ones at the end. The first always counts. -/
def trimParts : List String → List String
  | [] => []
  | p :: ps => p :: (ps.reverse.dropWhile isIdle).reverse

/-- The folder that the path leads into, empty if the path is a single part. -/
def parent (path : String) : String :=
  "/".intercalate (trimParts (trimParts (parts path)).dropLast)

/-- The parts from a folder on, with the steps upwards carried out. -/
def follow (folder : List String) (path : String) : List String :=
  (parts path).foldl (fun steps part =>
    if isIdle part then steps else if part = ".." then steps.dropLast else steps ++ [part]) folder

end Path

/-- Why something cannot be done with a file. -/
inductive FileError where
  | missing
  | notFolder
  | isFolder
  | alreadyThere
  | denied
  | notText
deriving DecidableEq, Repr

def FileError.message : FileError → String
  | missing => "No such file or directory (os error 2)"
  | notFolder => "Not a directory (os error 20)"
  | isFolder => "Is a directory (os error 21)"
  | alreadyThere => "File exists (os error 17)"
  | denied => "Permission denied (os error 13)"
  | notText => "stream did not contain valid UTF-8"

inductive FileTree where
  | file (bytes : ByteArray)
  | folder (entries : List (String × FileTree))
  /-- A file that is there and cannot be read. -/
  | lockedFile (why : FileError)
  /-- A folder that is there and cannot be looked into. -/
  | lockedFolder (why : FileError)
  /-- What is neither a file nor a folder, such as a pipe, and what reading it gives. -/
  | special (content : Except FileError ByteArray)
deriving Inhabited

def textOf (bytes : ByteArray) : Except FileError String :=
  match String.fromUTF8? bytes with
  | some text => .ok text
  | none => .error .notText

namespace FileTree

def isFile : FileTree → Bool
  | file _ | lockedFile _ => true
  | folder _ | lockedFolder _ | special _ => false

def isFolder : FileTree → Bool
  | folder _ | lockedFolder _ => true
  | file _ | lockedFile _ | special _ => false

/-- What reading it gives. -/
def content : FileTree → Except FileError ByteArray
  | file bytes => .ok bytes
  | folder _ => .error .isFolder
  | lockedFile why | lockedFolder why => .error why
  | special content => content

def text (t : FileTree) : Except FileError String := t.content >>= textOf

/-- What has the name in a folder. -/
def entry (name : String) : FileTree → Except FileError FileTree
  | folder entries => (entries.lookup name).elim (.error .missing) .ok
  | lockedFolder why => .error why
  | file _ | lockedFile _ | special _ => .error .notFolder

/-- One step, from the first of the trees, which the others are around. -/
def step : List FileTree → String → Except FileError (List FileTree)
  | [], _ => .error .notFolder
  | t :: above, part =>
    if !t.isFolder then .error .notFolder
    else if Path.isIdle part then .ok (t :: above)
    else if part = ".." then .ok (if above.isEmpty then [t] else above)
    else (t.entry part).map (· :: t :: above)

/-- What the parts of a path lead to. -/
def find (t : FileTree) (parts : List String) : Except FileError FileTree := do
  return (← parts.foldlM step [t]).headD t

/-- The tree with `new` at the end of the steps, and folders up to it. -/
def insert (new : FileTree) : List String → FileTree → FileTree
  | [], _ => new
  | name :: steps, folder entries =>
    let inside := insert new steps ((entries.lookup name).getD (folder []))
    folder (entries.filter (·.1 != name) ++ [(name, inside)])
  | name :: steps, _ => folder [(name, insert new steps (folder []))]

mutual

/-- The files and the folders that cannot be looked into, with the steps that lead there. No folder
inside is entered whose name `skips`. -/
def leaves (skips : String → Bool) : FileTree → List (List String × FileTree)
  | folder entries => leavesOf skips entries
  | special _ => []
  | t => [([], t)]

def leavesOf (skips : String → Bool) : List (String × FileTree) → List (List String × FileTree)
  | [] => []
  | (name, t) :: entries =>
    (if t.isFolder && skips name then []
      else (leaves skips t).map fun l => (name :: l.1, l.2)) ++ leavesOf skips entries

end

/-- The files that can be read, with the steps that lead to them. -/
def files (skips : String → Bool) (t : FileTree) : List (List String × ByteArray) :=
  (leaves skips t).filterMap fun l => l.2.content.toOption.map fun bytes => (l.1, bytes)

end FileTree
end SnippetLint
