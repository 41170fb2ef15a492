import SnippetLint.Text.Position
import SnippetLint.Text.Search

/-! Diagnostics: where something is wrong in a text, how much it weighs, and what to say of it. -/
namespace SnippetLint

inductive Severity where
  | error
  | warning
  | info
deriving DecidableEq, Repr

namespace Severity

def name : Severity → String
  | error => "error"
  | warning => "warning"
  | info => "info"

def all : List Severity := [error, warning, info]

/-- The severity of exactly this name. -/
def ofExactName? (name : String) : Option Severity := all.find? (·.name == name)

/-- Case does not count. No letter outside ASCII has one of the names' letters for its lower case,
so it is enough to lower ASCII letters. -/
def ofName? (name : String) : Option Severity := ofExactName? name.toLower

end Severity

structure Diagnostic where
  position : Position
  message : String
  severity : Severity
deriving DecidableEq, Repr

namespace Diagnostic

def error (p : Position) (message : String) : Diagnostic := ⟨p, message, .error⟩

def warning (p : Position) (message : String) : Diagnostic := ⟨p, message, .warning⟩

def isError (d : Diagnostic) : Bool := d.severity == .error

def isWarning (d : Diagnostic) : Bool := d.severity == .warning

/-- The first `len` characters of the message already stand in a message of the list. -/
def repeated (len : Nat) (message : String) (ds : List Diagnostic) : Bool :=
  ds.any fun d => Text.hasPiece (message.toList.take len) d.message.toList

/-- Appends a diagnostic unless its message is repeated. -/
def pushNew (len : Nat) (ds : List Diagnostic) (d : Diagnostic) : List Diagnostic :=
  if repeated len d.message ds then ds else ds ++ [d]

end Diagnostic
end SnippetLint
