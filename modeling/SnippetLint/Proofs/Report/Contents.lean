import SnippetLint.Proofs.Json.Arrangement
import SnippetLint.Proofs.Json.Writing
import SnippetLint.Proofs.Report.Summary
import SnippetLint.Report

/-! What a report holds: a part for each result, in the order of the results, and what they amount
to. As JSON the parts are the items of an array; for people they are blocks of lines. -/
namespace SnippetLint
open JsonValue (find? Written)

section Json

/-- The members that stand for the result. Each name is there once. -/
structure Result.IsEntry (r : Result) (ms : List (String × JsonValue)) : Prop where
  names : (ms.map Prod.fst).Nodup
  language : find? "language" ms = some (.string r.language.name)
  code : find? "code" ms = some (.string r.code)
  title : find? "title" ms = some (.string r.title)
  diagnostics : find? "diagnostics" ms = some (.array (r.diagnostics.map Diagnostic.toJson))
  tree : find? "syntaxTree" ms = some r.tree.toJson
  isValid : find? "isValid" ms = some (.bool r.isValid)

/-- The members that stand for the numbers of a summary. -/
structure Summary.IsEntry (s : Summary) (ms : List (String × JsonValue)) : Prop where
  names : (ms.map Prod.fst).Nodup
  snippets : find? "snippets" ms = some (.nat s.snippets)
  valid : find? "valid" ms = some (.nat s.valid)
  errors : find? "errors" ms = some (.nat s.errors)
  warnings : find? "warnings" ms = some (.nat s.warnings)

/-- The value has an entry for each result and one for all of them. -/
inductive Report.IsJson (rs : List Result) : JsonValue → Prop
  | intro {ms counts : List (String × JsonValue)} {entries : List (List (String × JsonValue))}
      (names : (ms.map Prod.fst).Nodup) (hversion : find? "version" ms = some (.string version))
      (hsummary : find? "summary" ms = some (.object counts))
      (hcounts : (Summary.counts rs).IsEntry counts)
      (hresults : find? "results" ms = some (.array (entries.map .object)))
      (hentries : List.Forall₂ Result.IsEntry rs entries) : IsJson rs (.object ms)

theorem Result.exists_isEntry (r : Result) : ∃ ms, r.toJson = .object ms ∧ r.IsEntry ms := by
  have hnames : ["language", "code", "title", "diagnostics", "syntaxTree", "isValid"].Nodup := by
    decide
  exact ⟨_, rfl, hnames, rfl, rfl, rfl, rfl, rfl, rfl⟩

theorem Summary.exists_isEntry (s : Summary) : ∃ ms, s.toJson = .object ms ∧ s.IsEntry ms := by
  have hnames : ["snippets", "valid", "errors", "warnings"].Nodup := by decide
  exact ⟨_, rfl, hnames, rfl, rfl, rfl, rfl⟩

theorem Result.exists_entries (rs : List Result) :
    ∃ entries, rs.map toJson = entries.map .object ∧ List.Forall₂ IsEntry rs entries := by
  induction rs with
  | nil => exact ⟨[], rfl, .nil⟩
  | cons r rs ih =>
    obtain ⟨ms, heq, hms⟩ := r.exists_isEntry
    obtain ⟨entries, hmap, hentries⟩ := ih
    exact ⟨ms :: entries, by rw [List.map_cons, List.map_cons, heq, hmap], .cons hms hentries⟩

theorem Report.isJson_json (rs : List Result) : IsJson rs (json rs) := by
  have hnames : ["version", "summary", "results"].Nodup := by decide
  obtain ⟨counts, hcounts, hsummary⟩ := (Summary.ofResults rs).exists_isEntry
  obtain ⟨entries, hmap, hentries⟩ := Result.exists_entries rs
  rw [json, hcounts, hmap]
  rw [Summary.ofResults_eq] at hsummary
  exact .intro hnames rfl rfl hsummary rfl hentries

end Json

namespace Report
variable {color : Bool}

def reset : List Char := "\x1b[0m".toList

/-- What a terminal gets for a text in the look of `codes`. Where there are no colors it is the
text; else the text is cut at the resets in it, and each piece is put into the look. -/
inductive Shown (codes text : String) : Bool → String → Prop
  | plain : Shown codes text false text
  | look {start : List Char} {pieces : List (List Char)}
      (hstart : start = ("\x1b[" ++ codes ++ "m").toList)
      (hpieces : text.toList = reset.intercalate pieces) (hfree : ∀ p ∈ pieces, ¬ reset <:+: p) :
      Shown codes text true
        (String.ofList (start ++ (reset ++ start).intercalate pieces ++ reset))

inductive ShownTag (color : Bool) : Severity → String → Prop
  | error {tag : String} (h : Shown "31" "ERROR" color tag) : ShownTag color .error tag
  | warning {tag : String} (h : Shown "33" "WARN " color tag) : ShownTag color .warning tag
  | info {tag : String} (h : Shown "34" "INFO " color tag) : ShownTag color .info tag

/-- The line tells the position, which takes up eight characters at least, and the message. -/
inductive ShownDiagnostic (color : Bool) (d : Diagnostic) : String → Prop
  | intro {tag place gap : String} (htag : ShownTag color d.severity tag)
      (hplace : place = toString d.position.line ++ ":" ++ toString d.position.column)
      (hgap : ∀ c ∈ gap.toList, c = ' ')
      (hwidth : (place ++ gap).length = max place.length 8) :
      ShownDiagnostic color d
        ("    " ++ tag ++ " " ++ (place ++ gap) ++ " " ++ d.message ++ "\n")

inductive ShownVerdict (color : Bool) : Bool → String → Prop
  | valid {verdict : String} (h : Shown "32" "✓ VALID  " color verdict) :
      ShownVerdict color true verdict
  | invalid {verdict : String} (h : Shown "31" "✗ INVALID" color verdict) :
      ShownVerdict color false verdict

/-- The block of a result: whether it is valid, its title and its language, then a line for each
of its diagnostics. -/
inductive ShownResult (color : Bool) (r : Result) : String → Prop
  | intro {verdict title language : String} {lines : List String}
      (hverdict : ShownVerdict color r.isValid verdict) (htitle : Shown "34" r.title color title)
      (hlanguage : Shown "2" ("(" ++ r.language.name ++ ")") color language)
      (hlines : List.Forall₂ (ShownDiagnostic color) r.diagnostics lines) :
      ShownResult color r ("  " ++ verdict ++ "  " ++ title ++ "  " ++ language ++ "\n" ++
        String.join lines ++ "\n")

inductive ShownOutcome (color : Bool) (rs : List Result) : String → Prop
  | valid {outcome : String} (hall : ∀ r ∈ rs, r.isValid = true)
      (h : Shown "1;32" "✓ ALL VALID" color outcome) : ShownOutcome color rs outcome
  | invalid {outcome : String} (hsome : ∃ r ∈ rs, r.isValid = false)
      (h : Shown "1;31" "✗ INVALID SNIPPETS" color outcome) : ShownOutcome color rs outcome

/-- The text has a block for each result, and what they amount to is below them. -/
inductive IsPretty (color : Bool) (rs : List Result) : String → Prop
  | intro {name outcome : String} {blocks : List String} {s : Summary}
      (hname : Shown "1;36" "commitlens" color name)
      (hblocks : List.Forall₂ (ShownResult color) rs blocks)
      (houtcome : ShownOutcome color rs outcome) (hs : s = .counts rs) :
      IsPretty color rs ("\n  " ++ name ++ " v" ++ version ++ "\n\n" ++ String.join blocks ++
        ("  " ++ outcome ++ "\n" ++ "  " ++ toString s.snippets ++ " snippet(s), " ++
        toString s.valid ++ " valid, " ++ toString s.errors ++ " error(s), " ++
        toString s.warnings ++ " warning(s)\n") ++ "\n")

theorem exists_pieces (start text : List Char) :
    ∃ p ps, text = reset.intercalate (p :: ps) ∧
      keepLook start text = (reset ++ start).intercalate (p :: ps) ∧
      ∀ q ∈ p :: ps, ¬ reset <:+: q := by
  fun_induction keepLook start text with
  | case1 cs ih =>
    obtain ⟨p, ps, hcs, hkeep, hfree⟩ := ih
    refine ⟨[], p :: ps, ?_, ?_, List.forall_mem_cons.mpr ⟨by decide, hfree⟩⟩
    · rw [List.intercalate_cons_cons, ← hcs]
      rfl
    · rw [List.intercalate_cons_cons, ← hkeep]
      rfl
  | case2 c cs hno ih =>
    obtain ⟨p, ps, hcs, hkeep, hfree⟩ := ih
    obtain ⟨hp, hps⟩ := List.forall_mem_cons.mp hfree
    have hcons : ∀ sep : List Char, sep.intercalate ((c :: p) :: ps) =
        c :: sep.intercalate (p :: ps) := by
      intro sep
      cases ps <;> simp
    refine ⟨c :: p, ps, by rw [hcons, ← hcs], by rw [hcons, ← hkeep],
      List.forall_mem_cons.mpr ⟨?_, hps⟩⟩
    -- a reset at the start of the piece would be one at the start of the text
    rw [List.infix_cons_iff, not_or]
    refine ⟨fun hpre => ?_, hp⟩
    have hstart : reset <+: c :: cs := by
      rw [hcs, ← hcons]
      cases ps with
      | nil => rwa [List.intercalate_singleton]
      | cons q ps =>
        rw [List.intercalate_cons_cons, List.append_assoc]
        exact hpre.trans (List.prefix_append _ _)
    obtain ⟨tail, htail⟩ := hstart
    obtain ⟨hc, hrest⟩ := List.cons.inj htail
    exact hno tail hc.symm hrest.symm
  | case3 => exact ⟨[], [], rfl, rfl, by decide⟩

theorem shown_styled (color : Bool) (codes text : String) :
    Shown codes text color (styled color codes text) := by
  cases color with
  | false => exact .plain
  | true =>
    have hstart : lookStart codes = ("\x1b[" ++ codes ++ "m").toList := by simp [lookStart]
    obtain ⟨p, ps, hpieces, hkeep, hfree⟩ := exists_pieces (lookStart codes) text.toList
    rw [styled, if_pos rfl, hkeep]
    exact .look hstart hpieces hfree

theorem shownTag_severityTag (color : Bool) (s : Severity) :
    ShownTag color s (severityTag color s) := by
  cases s with
  | error => exact .error (shown_styled color _ _)
  | warning => exact .warning (shown_styled color _ _)
  | info => exact .info (shown_styled color _ _)

theorem shownDiagnostic_diagnosticText (color : Bool) (d : Diagnostic) :
    ShownDiagnostic color d (diagnosticText color d) := by
  have htag := shownTag_severityTag color d.severity
  unfold diagnosticText Diagnostic.line
  generalize hplace : toString d.position.line ++ ":" ++ toString d.position.column = place
  generalize severityTag color d.severity = tag at htag ⊢
  have hgap : ∀ c ∈ (String.ofList (List.replicate (8 - place.length) ' ')).toList, c = ' ' := by
    intro c hc
    rw [String.toList_ofList] at hc
    exact List.eq_of_mem_replicate hc
  have hwidth : (place ++ String.ofList (List.replicate (8 - place.length) ' ')).length =
      max place.length 8 := by
    rw [String.length_append, String.length_ofList, List.length_replicate]
    omega
  have hd := ShownDiagnostic.intro htag hplace.symm hgap hwidth
  simpa only [String.append_assoc] using hd

theorem shownVerdict_of_isValid (color valid : Bool) : ShownVerdict color valid
    (if valid then styled color "32" "✓ VALID  " else styled color "31" "✗ INVALID") := by
  cases valid with
  | true => exact .valid (shown_styled color _ _)
  | false => exact .invalid (shown_styled color _ _)

theorem shownResult_resultText (color : Bool) (r : Result) :
    ShownResult color r (resultText color r ++ "\n") := by
  have hlines : List.Forall₂ (ShownDiagnostic color) r.diagnostics
      (r.diagnostics.map (diagnosticText color)) := by
    rw [List.forall₂_map_right_iff, List.forall₂_same]
    exact fun d _ => shownDiagnostic_diagnosticText color d
  exact .intro (shownVerdict_of_isValid color r.isValid) (shown_styled color _ _)
    (shown_styled color _ _) hlines

theorem shownOutcome_ofResults (color : Bool) (rs : List Result) : ShownOutcome color rs
    (if (Summary.ofResults rs).allValid then styled color "1;32" "✓ ALL VALID"
      else styled color "1;31" "✗ INVALID SNIPPETS") := by
  split_ifs with h
  · exact .valid ((Summary.allValid_iff rs).mp h) (shown_styled color _ _)
  · rw [Summary.allValid_iff] at h
    push Not at h
    simp only [ne_eq, Bool.not_eq_true] at h
    exact .invalid h (shown_styled color _ _)

theorem isPretty_pretty (color : Bool) (rs : List Result) :
    IsPretty color rs (pretty color rs) := by
  have hblocks : List.Forall₂ (ShownResult color) rs
      (rs.map fun r => resultText color r ++ "\n") := by
    rw [List.forall₂_map_right_iff, List.forall₂_same]
    exact fun r _ => shownResult_resultText color r
  exact .intro (shown_styled color _ _) hblocks (shownOutcome_ofResults color rs)
    (Summary.ofResults_eq rs)

end Report
end SnippetLint
