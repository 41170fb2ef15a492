import SnippetLint.Analysis.Result
import SnippetLint.Json.Conversion

/-! The report of a batch, as JSON and for people. -/
namespace SnippetLint

/-- The version of the program. -/
def version : String := "0.1.0"

def Result.toJson (r : Result) : JsonValue :=
  .object [("language", .string r.language.name), ("code", .string r.code),
    ("title", .string r.title), ("diagnostics", .array (r.diagnostics.map Diagnostic.toJson)),
    ("syntaxTree", r.tree.toJson), ("isValid", .bool r.isValid)]

def Summary.toJson (s : Summary) : JsonValue :=
  .object [("snippets", .nat s.snippets), ("valid", .nat s.valid), ("errors", .nat s.errors),
    ("warnings", .nat s.warnings)]

/-- Version, summary and results. -/
def Report.json (rs : List Result) : JsonValue :=
  .object [("version", .string version), ("summary", (Summary.ofResults rs).toJson),
    ("results", .array (rs.map Result.toJson))]

/-- A look begins with its codes and ends with a reset. -/
def lookStart (codes : String) : List Char := '\x1b' :: '[' :: codes.toList ++ ['m']

def lookEnd : List Char := ['\x1b', '[', '0', 'm']

/-- A reset inside the text is followed by the codes again. -/
def keepLook (start : List Char) : List Char → List Char
  | '\x1b' :: '[' :: '0' :: 'm' :: cs => lookEnd ++ start ++ keepLook start cs
  | c :: cs => c :: keepLook start cs
  | [] => []

/-- Text of a terminal in the look of `codes`. -/
def styled (color : Bool) (codes text : String) : String :=
  if color then String.ofList (lookStart codes ++ keepLook (lookStart codes) text.toList ++ lookEnd)
  else text

/-- Line and column, filled up to eight characters, and the message. -/
def Diagnostic.line (d : Diagnostic) : String :=
  let place := toString d.position.line ++ ":" ++ toString d.position.column
  place ++ String.ofList (List.replicate (8 - place.length) ' ') ++ " " ++ d.message

namespace Report

def severityTag (color : Bool) : Severity → String
  | .error => styled color "31" "ERROR"
  | .warning => styled color "33" "WARN "
  | .info => styled color "34" "INFO "

def diagnosticText (color : Bool) (d : Diagnostic) : String :=
  "    " ++ severityTag color d.severity ++ " " ++ d.line ++ "\n"

def resultText (color : Bool) (r : Result) : String :=
  "  " ++ (if r.isValid then styled color "32" "✓ VALID  " else styled color "31" "✗ INVALID") ++
    "  " ++ styled color "34" r.title ++
    "  " ++ styled color "2" ("(" ++ r.language.name ++ ")") ++ "\n" ++
    String.join (r.diagnostics.map (diagnosticText color))

def summaryText (color : Bool) (s : Summary) : String :=
  "  " ++ (if s.allValid then styled color "1;32" "✓ ALL VALID"
    else styled color "1;31" "✗ INVALID SNIPPETS") ++ "\n" ++
    "  " ++ toString s.snippets ++ " snippet(s), " ++ toString s.valid ++ " valid, " ++
    toString s.errors ++ " error(s), " ++ toString s.warnings ++ " warning(s)\n"

def pretty (color : Bool) (rs : List Result) : String :=
  "\n  " ++ styled color "1;36" "commitlens" ++ " v" ++ version ++ "\n\n" ++
    String.join (rs.map fun r => resultText color r ++ "\n") ++
    summaryText color (.ofResults rs) ++ "\n"

end Report
end SnippetLint
