import SnippetLint.Analysis.Snippet
import SnippetLint.Proofs.Pass.RealPosition

/-! An analysis says what its passes say, one after another and each where it says it: a result
moves diagnostics onto the text, and those of the passes are there already. -/
namespace SnippetLint.Analysis

/-- The error of the strict grammar, unless the other one's errors say it already. -/
def strictNews (parse : Parser) (dedupLength : ℕ) (code : String) : List Diagnostic :=
  (strict? parse code).toList.filter fun d =>
    !Diagnostic.repeated dedupLength d.message (tolerant parse code).1

/-- Errors of the grammar, then what the checker finds. -/
def compilerPasses (parse : Parser) (options : TypeScript.Options) (code : String) :
    List (List Diagnostic) :=
  match parse .typescript code with
  | some t => [
    (TypeScript.syntactic code.toList t).map (.ofFinding code.toList),
    (TypeScript.semantic ⟨code.toList, t⟩ options).map (.ofFinding code.toList)]
  | none => [[noTree .typescript]]

def cppPasses (checks : Checks) (code : List Char) : List (List Diagnostic) := [
  Bracket.scan code .curly,
  Bracket.scan code .parenthesis,
  Bracket.scan code .square,
  onlyIf checks.missingSemicolons (Semicolon.missingInBlock code),
  onlyIf checks.typos (Spelling.typos Spelling.cpp code),
  onlyIf checks.bestPractices (Smell.find code)]

/-- What each pass of the analysis says by itself, in the order of the passes. A pass that is
turned off says nothing. -/
def passes (parse : Parser) (settings : Settings) (code : String) :
    Language → List (List Diagnostic)
  | .javascript => [
    (tolerant parse code).1,
    strictNews parse settings.dedupLength code,
    Bracket.scan code.toList .parenthesis,
    Bracket.scan code.toList .curly,
    Bracket.scan code.toList .square,
    onlyIf settings.checks.typos (Spelling.typos Spelling.javascript code.toList),
    onlyIf settings.checks.missingSemicolons (Semicolon.missingInScript code.toList),
    onlyIf settings.checks.undefinedIdentifiers (UndefinedName.find code.toList)]
  | .typescript =>
    compilerPasses parse .allStrict code ++
      [onlyIf settings.checks.typos (Spelling.typos Spelling.typescript code.toList)]
  | .cpp => cppPasses settings.checks code.toList
  | .c =>
    let masked := Source.mask code.toList
    cppPasses settings.checks code.toList ++ [
      CDialect.cppKeywordUses masked,
      onlyIf settings.checks.declarationsFirst (CDialect.lateDeclarations masked),
      onlyIf settings.checks.prototypes (CDialect.missingPrototypes masked),
      onlyIf settings.checks.lineComments (CDialect.lineComments code.toList)]

theorem allReal_onlyIf {code : List Char} {ds : List Diagnostic} (enabled : Bool)
    (h : AllReal code ds) : AllReal code (onlyIf enabled ds) := by
  cases enabled with
  | false => exact .nil code
  | true => exact h

theorem allReal_noTree (code : List Char) (g : Grammar) : AllReal code [noTree g] := by
  intro d hd
  rw [List.mem_singleton.mp hd]
  exact Position.isReal_first code

theorem allReal_ofFinding (source : List Char) (fs : List TypeScript.Finding) :
    AllReal source (fs.map (.ofFinding source)) := by
  intro d hd
  obtain ⟨f, -, rfl⟩ := List.mem_map.mp hd
  exact Position.isReal_ofByte source f.start

theorem allReal_tolerant (parse : Parser) (code : String) :
    AllReal code.toList (tolerant parse code).1 := by
  unfold tolerant
  split
  · intro d hd
    obtain ⟨i, -, rfl⟩ := List.mem_map.mp hd
    exact Position.isReal_ofByte code.toList i.start
  · exact allReal_noTree _ _

theorem isReal_of_strict? {parse : Parser} {code : String} {d : Diagnostic}
    (h : strict? parse code = some d) : d.position.IsReal code.toList := by
  unfold strict? at h
  split at h
  · obtain ⟨i, -, rfl⟩ := Option.map_eq_some_iff.mp h
    exact Position.isReal_ofByte code.toList i.start
  · rw [← Option.some.inj h]
    exact Position.isReal_first _

theorem parserDiagnostics_eq (parse : Parser) (dedupLength : ℕ) (code : String) :
    parserDiagnostics parse dedupLength code =
      (tolerant parse code).1 ++ strictNews parse dedupLength code := by
  unfold parserDiagnostics strictNews
  cases strict? parse code with
  | none => simp
  | some d =>
    cases h : Diagnostic.repeated dedupLength d.message (tolerant parse code).1 <;>
      simp [Diagnostic.pushNew, h]

theorem allReal_parserDiagnostics (parse : Parser) (dedupLength : ℕ) (code : String) :
    AllReal code.toList (parserDiagnostics parse dedupLength code) := by
  rw [parserDiagnostics_eq]
  apply (allReal_tolerant parse code).append
  intro d hd
  exact isReal_of_strict? (Option.mem_toList.mp (List.mem_filter.mp hd).1)

theorem allReal_scriptDiagnostics (checks : Checks) (code : List Char) :
    AllReal code (scriptDiagnostics checks code) := by
  refine ((AllReal.append ?_ ?_).append ?_).append ?_
  · intro d hd
    obtain ⟨b, -, hd⟩ := List.mem_flatMap.mp hd
    exact Bracket.allReal_scan code b d hd
  · exact allReal_onlyIf _ (Spelling.allReal_typos _ code)
  · exact allReal_onlyIf _ (Semicolon.allReal_missingInScript code)
  · exact allReal_onlyIf _ (UndefinedName.allReal_find code)

theorem compiled_eq (parse : Parser) (options : TypeScript.Options) (code : String) :
    (compiled parse options code).1 = (compilerPasses parse options code).flatten := by
  unfold compiled compilerPasses
  cases parse .typescript code <;> simp

theorem allReal_compiled (parse : Parser) (options : TypeScript.Options) (code : String) :
    AllReal code.toList (compiled parse options code).1 := by
  unfold compiled
  split
  · exact allReal_ofFinding _ _
  · exact allReal_noTree _ _

theorem allReal_cppDiagnostics (checks : Checks) (code : List Char) :
    AllReal code (cppDiagnostics checks code) := by
  refine ((AllReal.append ?_ ?_).append ?_).append ?_
  · intro d hd
    obtain ⟨b, -, hd⟩ := List.mem_flatMap.mp hd
    exact Bracket.allReal_scan code b d hd
  · exact allReal_onlyIf _ (Semicolon.allReal_missingInBlock code)
  · exact allReal_onlyIf _ (Spelling.allReal_typos _ code)
  · exact allReal_onlyIf _ (Smell.allReal_find code)

theorem allReal_cDiagnostics (checks : Checks) (code : List Char) :
    AllReal code (cDiagnostics checks code) :=
  (CDialect.allReal_violations code _ _).append
    (allReal_onlyIf _ (CDialect.allReal_lineComments code))

theorem diagnostics_make {language : Language} {code title : String} {ds : List Diagnostic}
    {tree : SyntaxTree} (h : AllReal code.toList ds) :
    (Result.make language code title ds tree).diagnostics = ds := by
  have hc : ∀ d ∈ ds, { d with position := d.position.clamp code.toList } = d := by
    intro d hd
    rw [Position.clamp_of_isReal (h d hd)]
  unfold Result.make
  exact (List.map_congr_left hc).trans (List.map_id ds)

theorem allReal_make (language : Language) (code title : String) (ds : List Diagnostic)
    (tree : SyntaxTree) :
    AllReal code.toList (Result.make language code title ds tree).diagnostics := by
  intro d hd
  obtain ⟨e, -, rfl⟩ := List.mem_map.mp hd
  exact Position.isReal_clamp e.position code.toList

theorem diagnostics_javascript (parse : Parser) (settings : Settings) (code title : String) :
    (javascript parse settings code title).diagnostics =
      parserDiagnostics parse settings.dedupLength code ++
        scriptDiagnostics settings.checks code.toList :=
  diagnostics_make ((allReal_parserDiagnostics _ _ _).append (allReal_scriptDiagnostics _ _))

theorem diagnostics_typescript (parse : Parser) (options : TypeScript.Options)
    (settings : Settings) (code title : String) :
    (typescript parse options settings code title).diagnostics =
      (compiled parse options code).1 ++
        onlyIf settings.checks.typos (Spelling.typos Spelling.typescript code.toList) :=
  diagnostics_make ((allReal_compiled _ _ _).append
    (allReal_onlyIf _ (Spelling.allReal_typos _ _)))

theorem diagnostics_cpp (settings : Settings) (code title : String) :
    (cpp settings code title).diagnostics = cppDiagnostics settings.checks code.toList :=
  diagnostics_make (allReal_cppDiagnostics _ _)

/-- The diagnostics of C++ are on the text already when those of C come to them. -/
theorem diagnostics_c (settings : Settings) (code title : String) :
    (c settings code title).diagnostics =
      cppDiagnostics settings.checks code.toList ++ cDiagnostics settings.checks code.toList := by
  unfold c
  dsimp only
  rw [diagnostics_cpp]
  exact diagnostics_make ((allReal_cppDiagnostics _ _).append (allReal_cDiagnostics _ _))

theorem allReal_byLanguage (parse : Parser) (settings : Settings) (code title : String)
    (language : Language) :
    AllReal code.toList (byLanguage parse language settings code title).diagnostics := by
  cases language <;> exact allReal_make _ _ _ _ _

theorem diagnostics_byLanguage (parse : Parser) (settings : Settings) (code title : String)
    (language : Language) :
    (byLanguage parse language settings code title).diagnostics =
      (passes parse settings code language).flatten := by
  cases language with
  | javascript =>
    refine (diagnostics_javascript parse settings code title).trans ?_
    rw [parserDiagnostics_eq]
    simp [passes, scriptDiagnostics, Bracket.scanAll, Bracket.scriptOrder]
  | typescript =>
    refine (diagnostics_typescript parse .allStrict settings code title).trans ?_
    rw [compiled_eq]
    simp [passes]
  | cpp =>
    refine (diagnostics_cpp settings code title).trans ?_
    simp [passes, cppPasses, cppDiagnostics, Bracket.scanAll, Bracket.blockOrder]
  | c =>
    refine (diagnostics_c settings code title).trans ?_
    simp [passes, cppPasses, cppDiagnostics, cDiagnostics, CDialect.violations, onlyIf,
      Bracket.scanAll, Bracket.blockOrder]

/-- The diagnostics of a snippet are those of its passes, none moved, for all of them are at
positions of the code. -/
theorem diagnostics_analyze (parse : Parser) (settings : Settings) (s : Snippet) :
    (s.analyze parse settings).diagnostics = (passes parse settings s.code s.language).flatten ∧
      ∀ d ∈ (passes parse settings s.code s.language).flatten,
        d.position.IsReal s.code.toList := by
  have hd := diagnostics_byLanguage parse settings s.code
    (if s.title.isEmpty then settings.defaultTitle else s.title) s.language
  refine ⟨hd, ?_⟩
  rw [← hd]
  exact allReal_byLanguage parse settings s.code _ s.language

end SnippetLint.Analysis
