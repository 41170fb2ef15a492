import SnippetLint.Pass.CDialect
import SnippetLint.Pass.Spelling
import SnippetLint.Pass.UndefinedName
import SnippetLint.Proofs.Source.CodeWord

/-! Three passes look at the words of the masked text, one line after the other. What they report
is at the words of the code, and each word gets all the reports that it should have and no other:
none is lost, shifted or made twice. -/
namespace SnippetLint
open Text Source

section lists

variable {α β : Type}

theorem flatMap_filter_of_nil {q : α → Bool} {f : α → List β} (h : ∀ x, q x = false → f x = [])
    (xs : List α) : (xs.filter q).flatMap f = xs.flatMap f := by
  induction xs with
  | nil => rfl
  | cons x xs ih =>
    cases hq : q x with
    | true => rw [List.filter_cons_of_pos hq, List.flatMap_cons, List.flatMap_cons, ih]
    | false =>
      rw [List.filter_cons_of_neg (by rw [hq]; decide), List.flatMap_cons, h x hq, ih,
        List.nil_append]

theorem flatMap_ite_singleton (q : α → Bool) (f : α → β) (xs : List α) :
    (xs.flatMap fun x => if q x = true then [f x] else []) = (xs.filter q).map f := by
  induction xs with
  | nil => rfl
  | cons x xs ih =>
    rw [List.flatMap_cons, ih, List.filter_cons]
    split_ifs <;> rfl

end lists

section lines

variable {text line : List Char} {n column : ℕ}

/-- Only its own line reports something at a position. -/
theorem filter_flatMap_numbered {f : List Char × ℕ → List Diagnostic}
    (hf : ∀ x, ∀ d ∈ f x, d.position.line = x.2) (h : (line, n) ∈ numbered text) (column : ℕ) :
    ((numbered text).flatMap f).filter (·.position == ⟨n, column⟩) =
      (f (line, n)).filter (·.position == ⟨n, column⟩) := by
  have hother : ∀ x : List Char × ℕ, (x.2 == n) = false →
      (f x).filter (·.position == ⟨n, column⟩) = [] := by
    intro x hx
    rw [List.filter_eq_nil_iff]
    intro d hd hp
    have hline := hf x d hd
    rw [eq_of_beq hp] at hline
    exact absurd hline.symm (ne_of_beq_false hx)
  rw [List.filter_flatMap, ← flatMap_filter_of_nil hother, filter_numbered h,
    List.flatMap_singleton]

/-- Only the word at a position is reported there. -/
theorem filter_map_words {w : Word} (hw : w ∈ words line) (q : Word → Bool)
    {report : Word → Diagnostic} (hr : ∀ v, (report v).position = ⟨n, v.column⟩) :
    (((words line).filter q).map report).filter (·.position == ⟨n, w.column⟩) =
      if q w = true then [report w] else [] := by
  have hposition : ∀ v, ((report v).position == ⟨n, w.column⟩) = (v.column == w.column) := by
    intro v
    rw [hr v, Bool.eq_iff_iff, beq_iff_eq, beq_iff_eq, Position.mk.injEq]
    exact and_iff_right rfl
  rw [List.filter_map, List.filter_comm]
  simp only [Function.comp_def, hposition]
  rw [filter_words hw, List.filter_singleton]
  cases q w <;> rfl

/-- What a pass reports at a word that reports some of the words of each line. -/
theorem filter_reports (q : List Char → Word → Bool) (report : ℕ → Word → Diagnostic)
    (hr : ∀ n v, (report n v).position = ⟨n, v.column⟩) (hline : (line, n) ∈ numbered text)
    {w : Word} (hw : w ∈ words line) :
    ((numbered text).flatMap fun x =>
      ((words x.1).filter (q x.1)).map (report x.2)).filter (·.position == ⟨n, w.column⟩) =
      if q line w = true then [report n w] else [] := by
  rw [filter_flatMap_numbered _ hline, filter_map_words hw _ (hr n)]
  rintro ⟨line, n⟩ d hd
  obtain ⟨v, -, rfl⟩ := List.mem_map.mp hd
  rw [hr]

end lines

theorem isCodeWord_of_mem_words {code line : List Char} {n : ℕ}
    (hline : (line, n) ∈ numbered (mask code)) {w : Word} (hw : w ∈ words line) :
    IsCodeWord code w.text ⟨n, w.column⟩ :=
  isCodeWord_iff.mpr ⟨line, n, w, hline, hw, rfl, rfl⟩

namespace Spelling

theorem exists_isCodeWord {table : List Spelling} {code : List Char} {d : Diagnostic}
    (h : d ∈ typos table code) :
    ∃ word, IsCodeWord code word d.position ∧ ∃ s ∈ table, word ∈ s.variants ∧
      d = .warning d.position ("Possible typo: '" ++ word ++ "' might be '" ++ s.word ++ "'") := by
  obtain ⟨⟨line, n⟩, hline, hd⟩ := List.mem_flatMap.mp h
  obtain ⟨s, hs, hd⟩ := List.mem_flatMap.mp hd
  obtain ⟨v, hv, hd⟩ := List.mem_flatMap.mp hd
  obtain ⟨w, hw, rfl⟩ := List.mem_map.mp hd
  obtain ⟨hmem, heq⟩ := List.mem_filter.mp hw
  obtain rfl := eq_of_beq heq
  exact ⟨w.text, isCodeWord_of_mem_words hline hmem, s, hs, hv, rfl⟩

theorem line_of_mem_typosOfLine {table : List Spelling} {n : ℕ} {ws : List Word} {d : Diagnostic}
    (h : d ∈ typosOfLine table n ws) : d.position.line = n := by
  obtain ⟨s, -, hd⟩ := List.mem_flatMap.mp h
  obtain ⟨v, -, hd⟩ := List.mem_flatMap.mp hd
  obtain ⟨w, -, rfl⟩ := List.mem_map.mp hd
  rfl

theorem filter_typos {code : List Char} {word : String} {p : Position}
    (h : IsCodeWord code word p) (table : List Spelling) :
    (typos table code).filter (·.position == p) =
      table.flatMap fun s => (s.variants.filter (· == word)).map fun variant =>
        .warning p ("Possible typo: '" ++ variant ++ "' might be '" ++ s.word ++ "'") := by
  obtain ⟨line, n, w, hline, hw, rfl, rfl⟩ := isCodeWord_iff.mp h
  rw [typos, filter_flatMap_numbered (fun _ _ hd => line_of_mem_typosOfLine hd) hline]
  rw [typosOfLine, List.filter_flatMap]
  apply List.flatMap_congr
  intro s _
  rw [List.filter_flatMap, ← flatMap_ite_singleton]
  apply List.flatMap_congr
  intro v _
  rw [filter_map_words hw _ fun _ => rfl, BEq.comm]
  rfl

end Spelling

namespace CDialect

theorem exists_isCodeWord {code : List Char} {d : Diagnostic}
    (h : d ∈ cppKeywordUses (mask code)) :
    ∃ word, IsCodeWord code word d.position ∧
      d = .error d.position ("'" ++ word ++ "' is a C++ keyword, not standard C") := by
  obtain ⟨⟨line, n⟩, hline, hd⟩ := List.mem_flatMap.mp h
  obtain ⟨w, hw, rfl⟩ := List.mem_map.mp hd
  exact ⟨w.text, isCodeWord_of_mem_words hline (List.mem_filter.mp hw).1, rfl⟩

theorem filter_cppKeywordUses {code : List Char} {word : String} {p : Position}
    (h : IsCodeWord code word p) :
    (cppKeywordUses (mask code)).filter (·.position == p) =
      if word ∈ cppKeywords then
        [.error p ("'" ++ word ++ "' is a C++ keyword, not standard C")]
      else [] := by
  obtain ⟨line, n, w, hline, hw, rfl, rfl⟩ := isCodeWord_iff.mp h
  have hfilter := filter_reports (fun _ w => cppKeywords.contains w.text)
    (fun n w => .error ⟨n, w.column⟩ ("'" ++ w.text ++ "' is a C++ keyword, not standard C"))
    (fun _ _ => rfl) hline hw
  simp only [List.contains_iff_mem] at hfilter
  exact hfilter

end CDialect

namespace UndefinedName

/-- The name at the column stands right after `.` or `[`. -/
def MemberAt (line : List Char) (column : ℕ) : Prop :=
  (line.take (column - 1)).getLast? = some '.' ∨ (line.take (column - 1)).getLast? = some '['

/-- One colon, not two, stands right after the name that ends before `stop`. -/
def KeyAt (line : List Char) (stop : ℕ) : Prop :=
  [':'] <+: line.drop stop ∧ ¬ [':', ':'] <+: line.drop stop

/-- The word at the position is neither declared nor known, nor does it stand where any name may. -/
def IsSuspect (code : List Char) (word : String) (p : Position) : Prop :=
  word ∉ declaredNames (mask code) ∧ word ∉ knownNames ∧
    ¬ MemberAt (Position.lineText (mask code) p.line) p.column ∧
    ¬ KeyAt (Position.lineText (mask code) p.line) (p.column - 1 + word.length)

instance (line : List Char) (column : ℕ) : Decidable (MemberAt line column) :=
  inferInstanceAs (Decidable (_ ∨ _))

instance (line : List Char) (stop : ℕ) : Decidable (KeyAt line stop) :=
  inferInstanceAs (Decidable (_ ∧ _))

instance (code : List Char) (word : String) (p : Position) : Decidable (IsSuspect code word p) :=
  inferInstanceAs (Decidable (_ ∧ _))

theorem isMember_iff {line : List Char} {w : Word} (hw : w ∈ words line) :
    isMember line w = true ↔ MemberAt line w.column := by
  obtain ⟨u, rest, rfl, -, -, hc⟩ := mem_words_iff.mp hw
  rw [List.nil_append] at hc
  rw [isMember, w.before?_eq hc, MemberAt, hc, Nat.add_sub_cancel, List.take_left, Bool.or_eq_true,
    beq_iff_eq, beq_iff_eq]

theorem isKey_iff (line : List Char) (w : Word) :
    isKey line w = true ↔ KeyAt line (w.column - 1 + w.text.length) := by
  change _ ↔ [':'] <+: w.after line ∧ ¬ [':', ':'] <+: w.after line
  rw [isKey]
  split
  · rename_i rest hafter
    simp [hafter]
  · rename_i rest hsecond hafter
    rw [hafter]
    refine iff_of_true rfl ⟨List.prefix_append [':'] rest, ?_⟩
    rintro ⟨cs, hcs⟩
    exact hsecond cs (List.cons.inj hcs).2.symm
  · rename_i hsecond hfirst
    refine iff_of_false (by decide) ?_
    rintro ⟨⟨cs, hcs⟩, -⟩
    exact hfirst cs hcs.symm

theorem exists_isCodeWord {code : List Char} {d : Diagnostic} (h : d ∈ find code) :
    ∃ word, IsCodeWord code word d.position ∧
      d = .warning d.position ("'" ++ word ++ "' might be undefined") := by
  obtain ⟨⟨line, n⟩, hline, hd⟩ := List.mem_flatMap.mp h
  obtain ⟨w, hw, rfl⟩ := List.mem_map.mp hd
  exact ⟨w.text, isCodeWord_of_mem_words hline (List.mem_filter.mp hw).1, rfl⟩

theorem filter_find {code : List Char} {word : String} {p : Position}
    (h : IsCodeWord code word p) :
    (find code).filter (·.position == p) =
      if IsSuspect code word p then [.warning p ("'" ++ word ++ "' might be undefined")]
      else [] := by
  obtain ⟨line, n, w, hline, hw, rfl, rfl⟩ := isCodeWord_iff.mp h
  obtain ⟨hn, hget⟩ := mem_numbered.mp hline
  have htext : Position.lineText (mask code) n = line := Position.lineText_eq_of_getElem? hn hget
  have hsuspect : (!((declaredNames (mask code)).contains w.text || knownNames.contains w.text ||
      isMember line w || isKey line w)) = true ↔ IsSuspect code w.text ⟨n, w.column⟩ := by
    rw [IsSuspect, htext, ← isMember_iff hw, ← isKey_iff]
    simp [and_assoc]
  have hfilter := filter_reports (fun line w => !((declaredNames (mask code)).contains w.text ||
    knownNames.contains w.text || isMember line w || isKey line w)) warning (fun _ _ => rfl) hline
    hw
  exact hfilter.trans (if_congr hsuspect rfl rfl)

end UndefinedName
/-- What the passes over words report is at words of the code, and at each of these they report
every misspelling that the word is, once for each rule and variant, the keyword of C++ that it is,
once, and once the name that nothing introduces. -/
theorem code_words_are_reported_once (code : List Char) :
    (∀ table, ∀ d ∈ Spelling.typos table code, ∃ word, IsCodeWord code word d.position ∧
      ∃ s ∈ table, word ∈ s.variants ∧
        d = .warning d.position
          ("Possible typo: '" ++ word ++ "' might be '" ++ s.word ++ "'")) ∧
    (∀ d ∈ UndefinedName.find code, ∃ word, IsCodeWord code word d.position ∧
      d = .warning d.position ("'" ++ word ++ "' might be undefined")) ∧
    (∀ d ∈ CDialect.cppKeywordUses (mask code), ∃ word, IsCodeWord code word d.position ∧
      d = .error d.position ("'" ++ word ++ "' is a C++ keyword, not standard C")) ∧
    ∀ word p, IsCodeWord code word p →
      (∃ u v, Position.lineText code p.line = u ++ (word.toList ++ v) ∧
        p.column = u.length + 1 ∧ IsWord u word.toList v) ∧
      (∀ table, (Spelling.typos table code).filter (·.position == p) =
        table.flatMap fun s => (s.variants.filter (· == word)).map fun variant =>
          .warning p ("Possible typo: '" ++ variant ++ "' might be '" ++ s.word ++ "'")) ∧
      (CDialect.cppKeywordUses (mask code)).filter (·.position == p) =
        (if word ∈ CDialect.cppKeywords then
          [.error p ("'" ++ word ++ "' is a C++ keyword, not standard C")]
        else []) ∧
      (UndefinedName.find code).filter (·.position == p) =
        (if UndefinedName.IsSuspect code word p then
          [.warning p ("'" ++ word ++ "' might be undefined")]
        else []) :=
  ⟨fun _ _ h => Spelling.exists_isCodeWord h, fun _ h => UndefinedName.exists_isCodeWord h,
    fun _ h => CDialect.exists_isCodeWord h, fun _ _ h => ⟨h.exists_line,
      Spelling.filter_typos h, CDialect.filter_cppKeywordUses h, UndefinedName.filter_find h⟩⟩

theorem reports_of_retrn :
    IsCodeWord "y = retrn + x.this // retrn".toList "retrn" ⟨1, 5⟩ ∧
    (Spelling.typos Spelling.javascript "y = retrn + x.this // retrn".toList).filter
      (·.position == ⟨1, 5⟩) =
      [.warning ⟨1, 5⟩ "Possible typo: 'retrn' might be 'return'"] ∧
    (CDialect.cppKeywordUses (mask "y = retrn + x.this // retrn".toList)).filter
      (·.position == ⟨1, 5⟩) = [] ∧
    (UndefinedName.find "y = retrn + x.this // retrn".toList).filter (·.position == ⟨1, 5⟩) =
      [.warning ⟨1, 5⟩ "'retrn' might be undefined"] := by
  have hword : IsCodeWord "y = retrn + x.this // retrn".toList "retrn" ⟨1, 5⟩ := by
    refine isCodeWord_iff.mpr
      ⟨"y = retrn + x.this         ".toList, 1, ⟨"retrn", 4, 5⟩, ?_, ?_, rfl, rfl⟩
    · decide +kernel
    · decide +kernel
  have h := (code_words_are_reported_once "y = retrn + x.this // retrn".toList).2.2.2 _ _ hword
  refine ⟨hword, (h.2.1 Spelling.javascript).trans ?_, h.2.2.1.trans ?_, h.2.2.2.trans ?_⟩
  · decide +kernel
  · decide +kernel
  · decide +kernel

end SnippetLint
