import SnippetLint.Proofs.Analysis.Validity

/-! What the checks have to do with the verdict. Six of the seven are advice. The search for missing
semicolons is advice for scripts, but in C and C++ its findings are errors, and there the verdict
depends on whether it is made. -/
namespace SnippetLint.Analysis

/-- No fault is found that every analysis of the language looks for. -/
def Flawless (parse : Parser) (code : String) : Language → Prop
  | .javascript => (tolerant parse code).1 = [] ∧ strict? parse code = none ∧
      ∀ b, Bracket.scan code.toList b = []
  | .typescript => NoErrors (compiled parse .allStrict code).1
  | .cpp => ∀ b, Bracket.scan code.toList b = []
  | .c => (∀ b, Bracket.scan code.toList b = []) ∧
      CDialect.cppKeywordUses (Source.mask code.toList) = []

theorem isValid_byLanguage_iff (parse : Parser) (settings : Settings) (code title : String)
    (language : Language) :
    (byLanguage parse language settings code title).isValid = true ↔
      Flawless parse code language ∧ (settings.checks.missingSemicolons = true →
        language ∈ [.cpp, .c] → Semicolon.missingInBlock code.toList = []) := by
  rw [Result.isValid_iff]
  cases language with
  | javascript =>
    show NoErrors (javascript parse settings code title).diagnostics ↔ _
    rw [diagnostics_javascript, noErrors_append, noErrors_parserDiagnostics,
      noErrors_scriptDiagnostics]
    simp [Flawless, and_assoc]
  | typescript =>
    show NoErrors (typescript parse .allStrict settings code title).diagnostics ↔ _
    rw [diagnostics_typescript, noErrors_append, noErrors_onlyIf]
    simp [Flawless, Spelling.noErrors_typos]
  | cpp =>
    show NoErrors (cpp settings code title).diagnostics ↔ _
    rw [diagnostics_cpp, noErrors_cppDiagnostics]
    simp [Flawless]
  | c =>
    show NoErrors (c settings code title).diagnostics ↔ _
    rw [diagnostics_c, noErrors_append, noErrors_cppDiagnostics, noErrors_cDiagnostics,
      and_right_comm]
    simp [Flawless]

theorem isValid_analyze_iff (parse : Parser) (settings : Settings) (s : Snippet) :
    (s.analyze parse settings).isValid = true ↔
      Flawless parse s.code s.language ∧ (settings.checks.missingSemicolons = true →
        s.language ∈ [.cpp, .c] → Semicolon.missingInBlock s.code.toList = []) :=
  isValid_byLanguage_iff parse settings s.code _ s.language

/-- Two choices of checks judge a snippet differently exactly if it is of C or C++ and lacks
semicolons, these alone are wrong with it, and one of the two looks for them. -/
theorem isValid_ne_iff_semicolons (parse : Parser) (settings : Settings) (checks : Checks)
    (s : Snippet) :
    (s.analyze parse settings).isValid ≠
        (s.analyze parse { settings with checks := checks }).isValid ↔
      s.language ∈ [.cpp, .c] ∧ Semicolon.missingInBlock s.code.toList ≠ [] ∧
        (s.analyze parse { settings with
          checks := { checks with missingSemicolons := false } }).isValid = true ∧
        settings.checks.missingSemicolons ≠ checks.missingSemicolons := by
  rw [ne_eq, Bool.eq_iff_iff, isValid_analyze_iff, isValid_analyze_iff, isValid_analyze_iff]
  constructor
  · intro h
    have hflawless : Flawless parse s.code s.language :=
      not_not.mp fun hn => h (iff_of_false (fun hv => hn hv.1) fun hv => hn hv.1)
    have hlacks : ¬(s.language ∈ [.cpp, .c] → Semicolon.missingInBlock s.code.toList = []) :=
      fun hn => h (and_congr_right' (iff_of_true (fun _ => hn) fun _ => hn))
    have hdiffer : settings.checks.missingSemicolons ≠ checks.missingSemicolons :=
      fun he => h (by rw [he])
    obtain ⟨hl, hm⟩ := Classical.not_imp.mp hlacks
    exact ⟨hl, hm, ⟨hflawless, fun hoff => absurd hoff Bool.false_ne_true⟩, hdiffer⟩
  · rintro ⟨hl, hm, ⟨hflawless, -⟩, hdiffer⟩ h
    -- Each choice finds the snippet valid exactly if it does not look for semicolons.
    simp only [hflawless, hl, hm, true_and, not_true_eq_false, imp_false, not_iff_not] at h
    exact hdiffer (Bool.eq_iff_iff.mpr h)

namespace Sample

/-- Nothing but the semicolon is missing. -/
def unterminated : Snippet := ⟨"int x = 5", .cpp, "x.cpp"⟩

theorem not_isValid_eq_of_checks : ¬ ∀ parse settings checks (s : Snippet),
    (s.analyze parse settings).isValid =
      (s.analyze parse { settings with checks := checks }).isValid := by
  intro h
  have hoff := h (fun _ _ => none) .standard { Checks.all with missingSemicolons := false }
    unterminated
  exact absurd hoff (by decide +kernel)

end Sample
end SnippetLint.Analysis
