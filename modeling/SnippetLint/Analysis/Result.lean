import SnippetLint.Diagnostic
import SnippetLint.Language
import SnippetLint.SyntaxTree

/-! Results: a snippet with its diagnostics and its tree, and what a batch of them amounts to. -/
namespace SnippetLint

structure Result where
  language : Language
  code : String
  title : String
  diagnostics : List Diagnostic
  tree : SyntaxTree
deriving Repr

namespace Result

/-- Every diagnostic is moved onto the nearest position that the code has. -/
def make (language : Language) (code title : String) (ds : List Diagnostic) (tree : SyntaxTree) :
    Result where
  language
  code
  title
  diagnostics := ds.map fun d => { d with position := d.position.clamp code.toList }
  tree

/-- Only errors make a snippet invalid. -/
def isValid (r : Result) : Bool := !r.diagnostics.any Diagnostic.isError

def errorCount (r : Result) : Nat := r.diagnostics.countP Diagnostic.isError

def warningCount (r : Result) : Nat := r.diagnostics.countP Diagnostic.isWarning

end Result

structure Summary where
  snippets : Nat
  valid : Nat
  errors : Nat
  warnings : Nat
deriving DecidableEq, Repr

namespace Summary

def zero : Summary := ⟨0, 0, 0, 0⟩

def add (s : Summary) (r : Result) : Summary where
  snippets := s.snippets + 1
  valid := s.valid + r.isValid.toNat
  errors := s.errors + r.errorCount
  warnings := s.warnings + r.warningCount

def ofResults (rs : List Result) : Summary := rs.foldl add zero

def allValid (s : Summary) : Bool := s.valid == s.snippets

end Summary

/-- 1 if a snippet is invalid or, where warnings are to fail, has a warning; 0 else. -/
def exitCode (failOnWarnings : Bool) (rs : List Result) : Nat :=
  if rs.any (!·.isValid) || (failOnWarnings && rs.any (0 < ·.warningCount)) then 1 else 0

end SnippetLint
