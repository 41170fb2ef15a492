import SnippetLint.Proofs.Pass.SemicolonRepair

/-! A semicolon that a script misses, put in where it is missed, settles that report and no other,
unless the place is inside a literal that goes on in the next line. There it ends nothing, and all
the reports stay. -/
namespace SnippetLint.Semicolon
open Text Source

variable {code raw raw' : List Char} {xs ys : List (List Char)} {d : Diagnostic}

/-- The trimmed line of a script wants a semicolon. -/
def wantedInScript (line : List Char) : Bool :=
  !(line.isEmpty || endsWith line ';' || endsWith line '\x7b' || endsWith line '\x7d' ||
    ['/', '/'].isPrefixOf line) && scriptStatement line

/-- What is said of a line with its number. -/
def reportOf? (line : List Char × ℕ) : Option Diagnostic :=
  if wantedInScript (trim line.1) then some (.warning (place line.1 line.2) message) else none

theorem missingInScript_eq (code : List Char) :
    missingInScript code = (numbered (mask code)).filterMap reportOf? := by
  refine List.filterMap_congr fun (raw, n) _ => ?_
  dsimp only
  rw [reportOf?, wantedInScript]
  generalize ((trim raw).isEmpty || endsWith (trim raw) ';' || endsWith (trim raw) '\x7b' ||
    endsWith (trim raw) '\x7d' || ['/', '/'].isPrefixOf (trim raw)) = ended
  cases ended <;> rfl

theorem reportOf?_eq_some_iff {line : List Char × ℕ} :
    reportOf? line = some d ↔
      wantedInScript (trim line.1) = true ∧ d = .warning (place line.1 line.2) message := by
  rw [reportOf?]
  split_ifs with h
  · rw [Option.some.injEq, eq_comm]
    exact (and_iff_right h).symm
  · exact iff_of_false (by simp) fun hd => h hd.1

theorem reportOf?_congr (hend : trimEnd raw' = trimEnd raw) (htrim : trim raw' = trim raw)
    (n : ℕ) : reportOf? (raw', n) = reportOf? (raw, n) := by
  simp only [reportOf?, place, hend, htrim]

/-- The reports of the lines before one line, its own, and those of the lines after it. -/
theorem missingInScript_of_lines (hls : lines (mask code) = xs ++ raw :: ys) :
    missingInScript code = (xs.zipIdx 1).filterMap reportOf? ++
      ((reportOf? (raw, xs.length + 1)).toList ++
        (ys.zipIdx (xs.length + 2)).filterMap reportOf?) := by
  have hnumber : 1 + xs.length = xs.length + 1 := Nat.add_comm 1 xs.length
  rw [missingInScript_eq, numbered, hls, List.zipIdx_append, List.zipIdx_cons,
    List.filterMap_append, hnumber, List.filterMap_cons]
  cases reportOf? (raw, xs.length + 1) <;> rfl

/-- The line that a report is about. -/
theorem exists_line_of_mem_missingInScript (hd : d ∈ missingInScript code) :
    ∃ xs raw ys, lines (mask code) = xs ++ raw :: ys ∧ wantedInScript (trim raw) = true ∧
      d = .warning (place raw (xs.length + 1)) message := by
  rw [missingInScript_eq] at hd
  obtain ⟨line, hline, hreport⟩ := List.mem_filterMap.mp hd
  obtain ⟨us, vs, hsplit⟩ := List.append_of_mem hline
  obtain ⟨xs, zs, hls, -, hzs⟩ := List.zipIdx_eq_append_iff.mp hsplit
  obtain ⟨raw, ys, rfl, rfl, -⟩ := List.zipIdx_eq_cons_iff.mp hzs.symm
  obtain ⟨hwanted, hd⟩ := reportOf?_eq_some_iff.mp hreport
  refine ⟨xs, raw, ys, hls, hwanted, ?_⟩
  rw [hd, Nat.add_comm xs.length 1]

theorem line_le_of_mem (hd : d ∈ (xs.zipIdx 1).filterMap reportOf?) :
    d.position.line ≤ xs.length := by
  obtain ⟨line, hline, hreport⟩ := List.mem_filterMap.mp hd
  obtain ⟨-, rfl⟩ := reportOf?_eq_some_iff.mp hreport
  have hlast : line.2 < xs.length + 1 := List.snd_lt_of_mem_zipIdx hline
  exact Nat.le_of_lt_succ hlast

theorem ne_nil_of_wantedInScript {line : List Char} (h : wantedInScript line = true) :
    line ≠ [] := by
  rintro rfl
  exact absurd h (by decide)

theorem wantedInScript_append_semicolon (line : List Char) :
    wantedInScript (line ++ [';']) = false := by
  rw [wantedInScript, endsWith_append_singleton]
  simp

/-- The list without the report of one line. -/
theorem missingInScript_erase (hls : lines (mask code) = xs ++ raw :: ys)
    (hw : wantedInScript (trim raw) = true) :
    (missingInScript code).erase (.warning (place raw (xs.length + 1)) message) =
      (xs.zipIdx 1).filterMap reportOf? ++ (ys.zipIdx (xs.length + 2)).filterMap reportOf? := by
  have hearlier : Diagnostic.warning (place raw (xs.length + 1)) message ∉
      (xs.zipIdx 1).filterMap reportOf? := fun hmem => by
    have hline : xs.length + 1 ≤ xs.length := line_le_of_mem hmem
    omega
  have hown : reportOf? (raw, xs.length + 1) =
      some (.warning (place raw (xs.length + 1)) message) :=
    reportOf?_eq_some_iff.mpr ⟨hw, rfl⟩
  rw [missingInScript_of_lines hls, List.erase_append_right _ hearlier, hown]
  simp

/-- The semicolon at the place of a report takes that report away and leaves every other one as it
is. Inside a literal of more than one line it changes no report at all. -/
theorem script_semicolon_settles_or_is_lost (code : List Char) :
    ∀ d ∈ missingInScript code,
      (¬ InOpenLiteral code d.position →
        missingInScript (insertAt ';' code d.position) = (missingInScript code).erase d) ∧
      (InOpenLiteral code d.position →
        missingInScript (insertAt ';' code d.position) = missingInScript code) := by
  intro d hd
  obtain ⟨xs, raw, ys, hls, hw, rfl⟩ := exists_line_of_mem_missingInScript hd
  have hne := ne_nil_of_wantedInScript hw
  constructor
  · intro hp
    obtain ⟨raw', hls', htrim⟩ := exists_line_insertAt hls hne hp
    have hsettled : reportOf? (raw', xs.length + 1) = none := by
      rw [reportOf?, htrim, wantedInScript_append_semicolon, if_neg (by decide)]
    rw [missingInScript_erase hls hw]
    exact (missingInScript_of_lines hls').trans (by rw [hsettled]; rfl)
  · intro hp
    obtain ⟨raw', hls', hend, htrim⟩ := exists_line_insertAt_of_inOpenLiteral hls hne hp
    have hkept := reportOf?_congr hend htrim (xs.length + 1)
    exact (missingInScript_of_lines hls').trans (by rw [hkept, ← missingInScript_of_lines hls])

namespace Sample

def template : List Char := "const t = `a\nb`;\nlet y = 1".toList

theorem lexemes_template :
    lexemes template = "const t = ".toList.map .plain ++
      .literal ('`' :: ("a\nb".toList ++ ['`'])) :: ";\nlet y = 1".toList.map .plain := by
  decide +kernel

theorem inOpenLiteral_template : InOpenLiteral template ⟨1, 12⟩ :=
  inOpenLiteral_of_inside lexemes_template (by decide)

theorem not_inOpenLiteral_template : ¬ InOpenLiteral template ⟨3, 10⟩ := by
  have h := not_inOpenLiteral_of_between (List.append_nil (lexemes template)).symm
  rwa [flatMap_text_lexemes] at h

/-- The semicolon after the last line settles its report. The one after the first quote of the
literal settles nothing. -/
theorem missingInScript_template :
    (Diagnostic.warning ⟨3, 10⟩ message ∈ missingInScript template ∧
      ¬ InOpenLiteral template ⟨3, 10⟩ ∧
      missingInScript (insertAt ';' template ⟨3, 10⟩) = [.warning ⟨1, 12⟩ message]) ∧
    Diagnostic.warning ⟨1, 12⟩ message ∈ missingInScript template ∧
      InOpenLiteral template ⟨1, 12⟩ ∧
      missingInScript (insertAt ';' template ⟨1, 12⟩) =
        [.warning ⟨1, 12⟩ message, .warning ⟨3, 10⟩ message] := by
  have hlist : missingInScript template =
      [.warning ⟨1, 12⟩ message, .warning ⟨3, 10⟩ message] := by decide +kernel
  have hlast : Diagnostic.warning ⟨3, 10⟩ message ∈ missingInScript template := by simp [hlist]
  have hfirst : Diagnostic.warning ⟨1, 12⟩ message ∈ missingInScript template := by simp [hlist]
  have hsettled :=
    (script_semicolon_settles_or_is_lost template _ hlast).1 not_inOpenLiteral_template
  have hlost := (script_semicolon_settles_or_is_lost template _ hfirst).2 inOpenLiteral_template
  rw [hlist] at hsettled hlost
  exact ⟨⟨hlast, not_inOpenLiteral_template, hsettled⟩, hfirst, inOpenLiteral_template, hlost⟩

/-- A report after the quote that opens a literal cannot be settled where it stands. -/
theorem not_script_semicolon_settles :
    ¬ ∀ (code : List Char) (d : Diagnostic), d ∈ missingInScript code →
      missingInScript (insertAt ';' code d.position) = (missingInScript code).erase d := by
  intro h
  have hlist : missingInScript "const t = `a\nb`;".toList = [.warning ⟨1, 12⟩ message] := by
    decide +kernel
  have hkept : missingInScript (insertAt ';' "const t = `a\nb`;".toList ⟨1, 12⟩) =
      [.warning ⟨1, 12⟩ message] := by decide +kernel
  have hd : .warning ⟨1, 12⟩ message ∈ missingInScript "const t = `a\nb`;".toList := by
    rw [hlist]
    exact List.mem_singleton_self _
  have hlaw := h _ _ hd
  rw [show (Diagnostic.warning ⟨1, 12⟩ message).position = ⟨1, 12⟩ from rfl, hkept, hlist] at hlaw
  exact absurd hlaw (by decide)

end Sample
end SnippetLint.Semicolon
