import SnippetLint.Analysis.Result
import SnippetLint.ParseTree.Issue
import SnippetLint.ParseTree.Outline
import SnippetLint.Pass.Brackets
import SnippetLint.Pass.CDialect
import SnippetLint.Pass.Semicolon
import SnippetLint.Pass.Smell
import SnippetLint.Pass.Spelling
import SnippetLint.Pass.UndefinedName
import SnippetLint.Settings.Basic
import SnippetLint.TypeScript.Check

/-! The analysis of a snippet by the rules of its language. For C and C++ these are passes over the
text without a parser, for JavaScript two grammars and then passes, for TypeScript what the compiler
finds and then typos. -/
namespace SnippetLint

structure Snippet where
  code : String
  language : Language
  title : String
deriving DecidableEq, Repr

open TypeScript in
/-- Suggestions become warnings. -/
def Diagnostic.ofFinding (source : List Char) (f : Finding) : Diagnostic :=
  ⟨Position.ofByte source f.start, f.message,
    if f.category = .error then .error else .warning⟩

namespace Analysis

def onlyIf {α : Type} (enabled : Bool) (ds : List α) : List α := if enabled then ds else []

/-- Brackets, semicolons, typos, smells. -/
def cppDiagnostics (checks : Checks) (code : List Char) : List Diagnostic :=
  Bracket.scanAll code Bracket.blockOrder ++
    onlyIf checks.missingSemicolons (Semicolon.missingInBlock code) ++
    onlyIf checks.typos (Spelling.typos Spelling.cpp code) ++
    onlyIf checks.bestPractices (Smell.find code)

/-- What C has to say beyond C++. -/
def cDiagnostics (checks : Checks) (code : List Char) : List Diagnostic :=
  CDialect.violations code checks.declarationsFirst checks.prototypes ++
    onlyIf checks.lineComments (CDialect.lineComments code)

def cpp (settings : Settings) (code title : String) : Result :=
  .make .cpp code title (cppDiagnostics settings.checks code.toList) .placeholder

/-- The result for C++ with the rules of C on top. -/
def c (settings : Settings) (code title : String) : Result :=
  let base := cpp settings code title
  .make .c code title (base.diagnostics ++ cDiagnostics settings.checks code.toList) base.tree

def noTree (g : Grammar) : Diagnostic := .error .first (g.name ++ " parser produced no tree")

/-- The errors of one grammar, and the tree. -/
def tolerant (parse : Parser) (code : String) : List Diagnostic × SyntaxTree :=
  match parse .javascript code with
  | some t => (ScriptError.all code.toList t, .ofNode (t.outline code.toList))
  | none => ([noTree .javascript], .empty)

/-- The first error of the other grammar. -/
def strict? (parse : Parser) (code : String) : Option Diagnostic :=
  match parse .tsx code with
  | some t => ScriptError.first? code.toList t
  | none => some (noTree .tsx)

/-- Errors of the parsers; the strict one is heard only if it says something new. -/
def parserDiagnostics (parse : Parser) (dedupLength : Nat) (code : String) : List Diagnostic :=
  (strict? parse code).elim (tolerant parse code).1
    (Diagnostic.pushNew dedupLength (tolerant parse code).1)

/-- Brackets, typos, semicolons, undefined names. -/
def scriptDiagnostics (checks : Checks) (code : List Char) : List Diagnostic :=
  Bracket.scanAll code Bracket.scriptOrder ++
    onlyIf checks.typos (Spelling.typos Spelling.javascript code) ++
    onlyIf checks.missingSemicolons (Semicolon.missingInScript code) ++
    onlyIf checks.undefinedIdentifiers (UndefinedName.find code)

def javascript (parse : Parser) (settings : Settings) (code title : String) : Result :=
  .make .javascript code title
    (parserDiagnostics parse settings.dedupLength code ++
      scriptDiagnostics settings.checks code.toList)
    (tolerant parse code).2

/-- All findings of the compiler, and the tree. -/
def compiled (parse : Parser) (options : TypeScript.Options) (code : String) :
    List Diagnostic × SyntaxTree :=
  let source := code.toList
  match parse .typescript code with
  | some t =>
    ((TypeScript.syntactic source t ++ TypeScript.semantic ⟨source, t⟩ options).map
      (Diagnostic.ofFinding source), .ofNode (t.outline source))
  | none => ([noTree .typescript], .empty)

def typescript (parse : Parser) (options : TypeScript.Options) (settings : Settings)
    (code title : String) : Result :=
  .make .typescript code title
    ((compiled parse options code).1 ++
      onlyIf settings.checks.typos (Spelling.typos Spelling.typescript code.toList))
    (compiled parse options code).2

/-- The analysis for a language; TypeScript is checked strictly. -/
def byLanguage (parse : Parser) : Language → Settings → String → String → Result
  | .javascript => javascript parse
  | .typescript => typescript parse .allStrict
  | .cpp => cpp
  | .c => c

end Analysis

namespace Snippet

/-- A snippet without a title gets the default one. -/
def analyze (parse : Parser) (settings : Settings) (s : Snippet) : Result :=
  Analysis.byLanguage parse s.language settings s.code
    (if s.title.isEmpty then settings.defaultTitle else s.title)

/-- One result for each snippet, in their order. -/
def analyzeAll (parse : Parser) (settings : Settings) (ss : List Snippet) : List Result :=
  ss.map (analyze parse settings)

end Snippet
end SnippetLint
