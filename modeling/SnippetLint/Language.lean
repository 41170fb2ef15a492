import SnippetLint.Text.Search

/-! The languages of snippets, by name and by the extension of a file's name. -/
namespace SnippetLint

inductive Language where
  | javascript
  | typescript
  | cpp
  | c
deriving DecidableEq, Repr

namespace Language

def all : List Language := [javascript, typescript, cpp, c]

def name : Language → String
  | javascript => "javascript"
  | typescript => "typescript"
  | cpp => "cpp"
  | c => "c"

/-- Extensions without their dot. -/
def extensions : Language → List String
  | javascript => ["js", "jsx", "mjs", "cjs"]
  | typescript => ["ts", "tsx", "mts", "cts"]
  | cpp => ["cpp", "cc", "cxx", "hpp", "hh", "hxx"]
  | c => ["c", "h"]

/-- Dots before the extension do not count, nor does the case of its ASCII letters. -/
def ofExtension? (extension : String) : Option Language :=
  let e := (String.ofList (extension.toList.dropWhile (· == '.'))).toLower
  all.find? fun l => l.extensions.contains e

/-- The language of exactly this name. -/
def ofExactName? (name : String) : Option Language := all.find? (·.name == name)

/-- Short names for some. -/
def ofAlias? : String → Option Language
  | "js" => some javascript
  | "ts" => some typescript
  | "c++" => some cpp
  | _ => none

/-- Blanks around the name and case do not count. No letter outside ASCII has one of the names'
letters for its lower case, so it is enough to lower ASCII letters. -/
def ofName? (name : String) : Option Language :=
  let n := (String.ofList (Text.trim name.toList)).toLower
  (ofExactName? n).or (ofAlias? n)

end Language

/-- A name that is no language's. -/
structure UnsupportedLanguage where
  name : String
deriving DecidableEq, Repr

def UnsupportedLanguage.message (e : UnsupportedLanguage) : String :=
  "unsupported language: " ++ e.name

def Language.ofName (name : String) : Except UnsupportedLanguage Language :=
  (Language.ofName? name).elim (.error ⟨name⟩) .ok

end SnippetLint
