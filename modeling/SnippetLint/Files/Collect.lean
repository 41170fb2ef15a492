import SnippetLint.Files.Tree
import SnippetLint.Language
import SnippetLint.Settings.Basic

/-! The files of a folder that are looked at. -/
namespace SnippetLint

def Language.ofPath? (path : String) : Option Language :=
  (Path.extension? path).bind ofExtension?

structure FoundFile where
  /-- The names on the way from the folder. -/
  steps : List String
  path : String
  content : Except FileError ByteArray

/-- Why a folder cannot be walked through: something in it cannot be looked into. -/
structure WalkError where
  path : String
  why : FileError
deriving DecidableEq, Repr

def WalkError.message (e : WalkError) : String :=
  "IO error for operation on " ++ e.path ++ ": " ++ e.why.message ++ ": " ++ e.why.message

namespace FoundFile

/-- Hidden folders, and those of dependencies and of what was built. -/
def isSkippedFolder (name : String) : Bool :=
  name.toList.head? == some '.' || name == "node_modules" || name == "target"

def ofLeaf (root : String) : List String × FileTree → Except WalkError FoundFile
  | (steps, .lockedFolder why) => .error ⟨steps.foldl Path.join root, why⟩
  | (steps, t) => .ok ⟨steps, steps.foldl Path.join root, t.content⟩

def all (root : String) (t : FileTree) : Except WalkError (List FoundFile) :=
  (t.leaves isSkippedFolder).mapM (ofLeaf root)

def isWanted (settings : Settings) (f : FoundFile) : Bool :=
  (Language.ofPath? f.path).isSome && !settings.excludes f.path

/-- The order of names is that of their code points. -/
def nameBefore (a b : String) : Bool := a.toList.lex b.toList fun c d => decide (c.toNat < d.toNat)

/-- The order of the names on the way, of which a longer way comes after its beginning. -/
def isBefore (f g : FoundFile) : Bool := f.steps.lex g.steps nameBefore

/-- The files with a language that are not excluded, in order. -/
def collect (settings : Settings) (root : String) (t : FileTree) :
    Except WalkError (List FoundFile) := do
  return ((← all root t).filter (isWanted settings)).mergeSort fun f g => !g.isBefore f

end FoundFile
end SnippetLint
