import SnippetLint.ParseTree.Issue

/-! Which checks of TypeScript are strict, and what the compiler finds in a text: a number, a class,
a place and a message. -/
namespace SnippetLint.TypeScript

/-- `strict` stands for every flag of the strict family. -/
structure Options where
  strict : Bool
  noImplicitAny : Bool
  strictNullChecks : Bool
  noUnusedLocals : Bool
  noUnusedParameters : Bool
  noImplicitReturns : Bool
deriving DecidableEq, Repr

namespace Options

def lenient : Options := ⟨false, false, false, false, false, false⟩

def allStrict : Options := ⟨true, true, true, true, true, true⟩

def forbidsImplicitAny (o : Options) : Bool := o.strict || o.noImplicitAny

def checksNulls (o : Options) : Bool := o.strict || o.strictNullChecks

end Options

inductive Category where
  | error
  | suggestion
deriving DecidableEq, Repr

structure Finding where
  code : Nat
  category : Category
  /-- A byte offset. -/
  start : Nat
  message : String
deriving DecidableEq, Repr

namespace Finding

def error (code start : Nat) (message : String) : Finding := ⟨code, .error, start, message⟩

/-- An error where the options forbid it, else a suggestion. -/
def graded (forbidden : Bool) (code start : Nat) (message : String) : Finding :=
  ⟨code, if forbidden then .error else .suggestion, start, message⟩

/-- Number and message in one line. -/
def line (f : Finding) : String := "TS" ++ toString f.code ++ ": " ++ f.message

def ofIssue (i : Issue) : Finding :=
  match i.kind with
  | .missing token => error 1005 i.start ("'" ++ token ++ "' expected.")
  | _ =>
    if i.topLevel then error 1128 i.start "Declaration or statement expected."
    else error 1109 i.start "Expression expected."

end Finding

/-- Errors of the grammar. -/
def syntactic (source : List Char) (t : ParseTree) : List Finding :=
  (t.issues source).map Finding.ofIssue

end SnippetLint.TypeScript
