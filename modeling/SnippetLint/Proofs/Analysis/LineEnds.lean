import SnippetLint.Proofs.Analysis.Pipeline
import SnippetLint.Proofs.Pass.LineEnds
import SnippetLint.Proofs.Source.LineEnds

/-! Line ends of another system. A carriage return before each line feed of a text changes nothing
in what is found there. -/
namespace SnippetLint
open Text

theorem Bracket.scanAll_crlf (code : List Char) (bs : List Bracket) :
    scanAll (crlf code) bs = scanAll code bs := by
  unfold scanAll
  congr 1
  funext b
  exact b.scanFrom_crlf .first [] code

theorem CDialect.lineComments_crlf (code : List Char) :
    lineComments (crlf code) = lineComments code := by
  rw [lineComments, lineComments, Source.positions_lineComments_crlf]

namespace Analysis

theorem cppDiagnostics_crlf (checks : Checks) (code : List Char) :
    cppDiagnostics checks (crlf code) = cppDiagnostics checks code := by
  have hm := Source.padded_mask code
  rw [cppDiagnostics, cppDiagnostics, Bracket.scanAll_crlf,
    ← Semicolon.missingInBlock_of_padded hm, ← Spelling.typos_of_padded hm,
    ← Smell.find_of_padded (padded_crlf code) hm]

theorem cDiagnostics_crlf (checks : Checks) (code : List Char) :
    cDiagnostics checks (crlf code) = cDiagnostics checks code := by
  rw [cDiagnostics, cDiagnostics, CDialect.lineComments_crlf,
    ← CDialect.violations_of_padded (Source.padded_mask code)]

/-- Every pass over the text finds the same with either line ends, at the same positions and in the
same order, and so C and C++ are judged the same. -/
theorem passes_crlf (code : String) :
    (∀ b, Bracket.scan (crlf code.toList) b = Bracket.scan code.toList b) ∧
      (∀ table, Spelling.typos table (crlf code.toList) = Spelling.typos table code.toList) ∧
      Semicolon.missingInScript (crlf code.toList) = Semicolon.missingInScript code.toList ∧
      Semicolon.missingInBlock (crlf code.toList) = Semicolon.missingInBlock code.toList ∧
      UndefinedName.find (crlf code.toList) = UndefinedName.find code.toList ∧
      Smell.find (crlf code.toList) = Smell.find code.toList ∧
      (∀ declarationsFirst prototypes,
        CDialect.violations (crlf code.toList) declarationsFirst prototypes =
          CDialect.violations code.toList declarationsFirst prototypes) ∧
      CDialect.lineComments (crlf code.toList) = CDialect.lineComments code.toList ∧
      ∀ settings title,
        (cpp settings (String.ofList (crlf code.toList)) title).diagnostics =
          (cpp settings code title).diagnostics ∧
        (cpp settings (String.ofList (crlf code.toList)) title).isValid =
          (cpp settings code title).isValid ∧
        (c settings (String.ofList (crlf code.toList)) title).diagnostics =
          (c settings code title).diagnostics ∧
        (c settings (String.ofList (crlf code.toList)) title).isValid =
          (c settings code title).isValid := by
  have hm := Source.padded_mask code.toList
  refine ⟨fun b => b.scanFrom_crlf .first [] code.toList,
    fun table => (Spelling.typos_of_padded hm).symm,
    (Semicolon.missingInScript_of_padded hm).symm, (Semicolon.missingInBlock_of_padded hm).symm,
    (UndefinedName.find_of_padded hm).symm,
    (Smell.find_of_padded (padded_crlf code.toList) hm).symm,
    fun declarationsFirst prototypes => (CDialect.violations_of_padded hm _ _).symm,
    CDialect.lineComments_crlf code.toList, fun settings title => ?_⟩
  have hcpp : (cpp settings (String.ofList (crlf code.toList)) title).diagnostics =
      (cpp settings code title).diagnostics := by
    rw [diagnostics_cpp, diagnostics_cpp, String.toList_ofList, cppDiagnostics_crlf]
  have hc : (c settings (String.ofList (crlf code.toList)) title).diagnostics =
      (c settings code title).diagnostics := by
    rw [diagnostics_c, diagnostics_c, String.toList_ofList, cppDiagnostics_crlf,
      cDiagnostics_crlf]
  refine ⟨hcpp, ?_, hc, ?_⟩
  · rw [Result.isValid, Result.isValid, hcpp]
  · rw [Result.isValid, Result.isValid, hc]

end Analysis
end SnippetLint
