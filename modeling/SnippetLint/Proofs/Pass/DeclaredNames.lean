import SnippetLint.Proofs.Pass.NamePatterns
import SnippetLint.Proofs.Pass.WordReports

/-! Reports inside the names that a script introduces. Names may go on with any letter and are
declared whole, but the words that are reported are in ASCII: a name with other letters falls into
pieces, which nothing declares. -/
namespace SnippetLint.UndefinedName
open Text Source

variable {code line before rest : List Char} {n place : ℕ} {name word : String} {d : Diagnostic}

/-- On the line the name stands whole between the two parts. From the place on there is a word that
introduces names, and blanks up to the name. -/
structure Introduces (line : List Char) (place : ℕ) (before : List Char) (name : String)
    (rest : List Char) : Prop where
  line_eq : line = before ++ (name.toList ++ rest)
  before_eq : ∃ keyword ∈ declaringWords, ∃ blanks,
    before = line.take place ++ (keyword.toList ++ blanks) ∧ blanks ≠ [] ∧
      ∀ c ∈ blanks, isBlank c = true
  whole : IsName name.toList rest

theorem exists_introduces (h : (place, name) ∈ findAll declared? line) :
    ∃ before rest, Introduces line place before name rest := by
  obtain ⟨u, t, rest, rfl, rfl, hread⟩ := exists_read_of_mem_findAll h
  cases declared?_eq_some_iff.mp hread with
  | @keyword _ word _ blanks _ _ hword hne hall hwhole =>
    refine ⟨u ++ (word.toList ++ blanks), rest, ?_, ⟨word, hword, blanks, ?_, hne, hall⟩, hwhole⟩
    · simp
    · rw [List.take_left]

theorem mem_declaredNames (hline : (line, n) ∈ numbered (mask code))
    (h : (place, name) ∈ findAll declared? line) : name ∈ declaredNames (mask code) := by
  have hmem : line ∈ lines (mask code) := List.mem_of_getElem? (mem_numbered.mp hline).2
  rw [declaredNames, List.mem_eraseDups, List.mem_flatMap]
  refine ⟨line, hmem, ?_⟩
  simp only [namesOfLine, List.mem_append, List.mem_map]
  exact .inl (.inl (.inl (.inl ⟨_, h, rfl⟩)))

namespace Introduces

theorem getLast?_before (h : Introduces line place before name rest) {c : Char}
    (hc : c ∈ before.getLast?) : isBlank c = true := by
  obtain ⟨keyword, -, blanks, rfl, hne, hall⟩ := h.before_eq
  rw [List.getLast?_append_of_ne_nil _ (by simp [hne]), List.getLast?_append_of_ne_nil _ hne] at hc
  exact hall c (List.mem_of_getLast? hc)

/-- The words in the name are words of the line. -/
theorem isWord_line (h : Introduces line place before name rest) {v w : List Char}
    (hname : name.toList = v ++ (word.toList ++ w)) (hw : IsWord v word.toList w) :
    IsWord (before ++ v) word.toList (w ++ rest) where
  ne_nil := hw.ne_nil
  all := hw.all
  first := hw.first
  left c hc := by
    cases v using List.reverseRecOn with
    | nil =>
      rw [List.append_nil] at hc
      exact isIdentChar_of_isBlank (h.getLast?_before hc)
    | append_singleton v d =>
      refine hw.left c ?_
      rwa [← List.append_assoc, List.getLast?_concat, ← List.getLast?_concat] at hc
  right c hc := by
    cases w with
    | nil =>
      have hright := h.whole.right c hc
      exact Bool.eq_false_iff.mpr fun hident =>
        Bool.eq_false_iff.mp hright (isNameChar_of_isIdentChar hident)
    | cons d w => exact hw.right c hc

/-- The words of the line that start in the name are words in the name. -/
theorem exists_word_name (h : Introduces line place before name rest) {a b : List Char}
    (hline : line = a ++ (word.toList ++ b)) (hw : IsWord a word.toList b)
    (hstart : before.length ≤ a.length) (hstop : a.length < before.length + name.length) :
    ∃ v w, a = before ++ v ∧ b = w ++ rest ∧ name.toList = v ++ (word.toList ++ w) ∧
      IsWord v word.toList w := by
  have hsplit : before ++ (name.toList ++ rest) = a ++ (word.toList ++ b) :=
    h.line_eq.symm.trans hline
  obtain ⟨v, rfl⟩ : before <+: a :=
    List.prefix_of_prefix_length_le ⟨_, rfl⟩ ⟨_, hsplit.symm⟩ hstart
  rw [List.append_assoc] at hsplit
  have hsplit := List.append_cancel_left hsplit
  obtain ⟨x, hx⟩ : v <+: name.toList := by
    refine List.prefix_of_prefix_length_le ⟨_, rfl⟩ ⟨_, hsplit⟩ ?_
    rw [List.length_append] at hstop
    rw [String.length_toList]
    omega
  rw [← hx, List.append_assoc] at hsplit
  have hsplit := List.append_cancel_left hsplit
  obtain ⟨w, rfl, rfl⟩ : ∃ w, x = word.toList ++ w ∧ b = w ++ rest := by
    rcases List.append_eq_append_iff.mp hsplit with ⟨y, hword, hrest⟩ | ⟨y, hx, hb⟩
    · -- a word cannot go on behind the name
      cases y with
      | nil => exact ⟨[], by rw [hword]; simp, by rw [hrest]; rfl⟩
      | cons c y =>
        have hident := hw.all c (hword ▸ List.mem_append_right x List.mem_cons_self)
        have hnot := h.whole.right c (by rw [hrest]; rfl)
        rw [isNameChar_of_isIdentChar hident] at hnot
        exact absurd hnot (by decide)
    · exact ⟨y, hx, hb⟩
  refine ⟨v, w, rfl, rfl, hx.symm, hw.ne_nil, hw.all, hw.first, fun c hc => hw.left c ?_,
    fun c hc => hw.right c ?_⟩
  · rw [List.getLast?_append, hc]
    rfl
  · rw [List.head?_append, hc]
    rfl

theorem not_memberAt (h : Introduces line place before name rest) {v tail : List Char}
    (hv : ∀ c ∈ v, isNameChar c = true) (hline : line = before ++ (v ++ tail)) :
    ¬ MemberAt line ((before ++ v).length + 1) := by
  have hlast : ∀ c ∈ (before ++ v).getLast?, c ≠ '.' ∧ c ≠ '[' := by
    intro c hc
    cases v using List.reverseRecOn with
    | nil =>
      rw [List.append_nil] at hc
      have hblank := h.getLast?_before hc
      constructor <;> rintro rfl <;> exact absurd hblank (by decide)
    | append_singleton v d =>
      rw [← List.append_assoc, List.getLast?_concat] at hc
      have hd := hv d (List.mem_append_right v List.mem_cons_self)
      rw [Option.some.inj hc] at hd
      constructor <;> rintro rfl <;> exact absurd hd (by decide)
  rw [MemberAt, Nat.add_sub_cancel, hline, ← List.append_assoc, List.take_left]
  rintro (hc | hc)
  · exact (hlast _ hc).1 rfl
  · exact (hlast _ hc).2 rfl

end Introduces

theorem keyAt_append (u t : List Char) :
    KeyAt (u ++ t) u.length ↔ [':'] <+: t ∧ ¬ [':', ':'] <+: t := by
  rw [KeyAt, List.drop_left]

/-- Reports on a line. -/
theorem mem_find_iff (hline : (line, n) ∈ numbered (mask code)) :
    (d ∈ find code ∧ d.position.line = n) ↔ ∃ a word b, line = a ++ (String.toList word ++ b) ∧
      IsWord a word.toList b ∧ IsSuspect code word ⟨n, a.length + 1⟩ ∧
      d = .warning ⟨n, a.length + 1⟩ ("'" ++ word ++ "' might be undefined") := by
  constructor
  · rintro ⟨hd, rfl⟩
    obtain ⟨word, hword, heq⟩ := exists_isCodeWord hd
    have hfilter := filter_find hword
    have hmem : d ∈ (find code).filter (·.position == d.position) :=
      List.mem_filter.mpr ⟨hd, beq_self_eq_true _⟩
    rw [hfilter] at hmem
    split_ifs at hmem with hsuspect
    · obtain ⟨line', n', w, hline', hw, rfl, hposition⟩ := isCodeWord_iff.mp hword
      obtain rfl : d.position.line = n' := by rw [hposition]
      obtain rfl : line' = line := Option.some.inj
        ((mem_numbered.mp hline').2.symm.trans (mem_numbered.mp hline).2)
      obtain ⟨a, b, htext, hw, -, hcolumn⟩ := mem_words_iff.mp hw
      have hplace : d.position = ⟨d.position.line, a.length + 1⟩ := by
        rw [hposition, hcolumn]
        rfl
      exact ⟨a, w.text, b, htext, hw, hplace ▸ hsuspect, hplace ▸ heq⟩
    · exact absurd hmem List.not_mem_nil
  · rintro ⟨a, word, b, rfl, hw, hsuspect, rfl⟩
    have hmem : ⟨word, byteLength a, a.length + 1⟩ ∈ words (a ++ (word.toList ++ b)) :=
      mem_words_iff.mpr ⟨a, b, rfl, hw, rfl, rfl⟩
    have hfilter := filter_find (isCodeWord_of_mem_words hline hmem)
    rw [if_pos hsuspect] at hfilter
    have hreported := List.mem_singleton.mpr (rfl : Diagnostic.warning ⟨n, a.length + 1⟩
      ("'" ++ word ++ "' might be undefined") = _)
    rw [← hfilter] at hreported
    exact ⟨(List.mem_filter.mp hreported).1, rfl⟩

/-- A word in a name in ASCII is the whole name. -/
theorem eq_of_ascii {v w : List Char} (hw : IsWord v word.toList w)
    (hname : name.toList = v ++ (word.toList ++ w))
    (hascii : ∀ c ∈ name.toList, isIdentChar c = true) : word = name := by
  have hv : v = [] := by
    by_contra hne
    have hlast := hw.left _ (List.getLast?_eq_some_getLast hne)
    have hident := hascii (v.getLast hne) (by rw [hname]; simp)
    exact absurd (hident.symm.trans hlast) (by decide)
  have hw : w = [] := by
    cases w with
    | nil => rfl
    | cons c w =>
      have hnot := hw.right c rfl
      have hident := hascii c (by rw [hname]; simp)
      exact absurd (hident.symm.trans hnot) (by decide)
  rw [hv, hw, List.nil_append, List.append_nil] at hname
  exact (String.toList_inj.mp hname).symm

/-- The diagnostic points at a character of the name that stands behind `before` on the line. -/
def PointsInto (d : Diagnostic) (n : ℕ) (before : List Char) (name : String) : Prop :=
  d.position.line = n ∧ before.length < d.position.column ∧
    d.position.column ≤ before.length + name.length

namespace Introduces

/-- Words in the name are suspect as others are, but for what stands next to them. -/
theorem isSuspect_iff (h : Introduces line place before name rest)
    (hline : (line, n) ∈ numbered (mask code)) {v w : List Char}
    (hname : name.toList = v ++ (word.toList ++ w)) :
    IsSuspect code word ⟨n, (before ++ v).length + 1⟩ ↔
      word ∉ declaredNames (mask code) ∧ word ∉ knownNames ∧
        (w = [] → ¬ KeyAt line (before.length + name.length)) := by
  obtain ⟨hn, hget⟩ := mem_numbered.mp hline
  have htext : Position.lineText (mask code) n = line := Position.lineText_eq_of_getElem? hn hget
  have hparts : line = (before ++ v) ++ (word.toList ++ (w ++ rest)) := by
    rw [h.line_eq, hname]
    simp
  have hmember : ¬ MemberAt line ((before ++ v).length + 1) := by
    refine h.not_memberAt (fun c hc => h.whole.all c ?_) (by rw [hparts, List.append_assoc])
    rw [hname]
    exact List.mem_append_left _ hc
  have hstop : (before ++ v).length + 1 - 1 + word.length =
      ((before ++ v) ++ word.toList).length := by
    simp only [List.length_append, String.length_toList]
    omega
  have hkey : ¬ KeyAt line ((before ++ v).length + 1 - 1 + word.length) ↔
      (w = [] → ¬ KeyAt line (before.length + name.length)) := by
    cases w with
    | nil =>
      have hlength : (before ++ v).length + 1 - 1 + word.length = before.length + name.length := by
        rw [← String.length_toList (s := name), hname, List.append_nil]
        simp only [List.length_append, String.length_toList]
        omega
      rw [hlength]
      simp
    | cons c w =>
      refine iff_of_true ?_ (fun hw => absurd hw (List.cons_ne_nil _ _))
      have hc := h.whole.all c (by rw [hname]; simp)
      rw [hstop, hparts, ← List.append_assoc, keyAt_append]
      rintro ⟨hcolon, -⟩
      have heq : ':' = c := (List.cons_prefix_cons.mp hcolon).1
      rw [← heq] at hc
      exact absurd hc (by decide)
  rw [IsSuspect, htext, hkey]
  simp only [hmember, not_false_eq_true, true_and]

end Introduces

/-- A name that is introduced is declared, but reports may point into it: at the words in ASCII that
it falls into, where nothing declares them. In a name in ASCII there is none. -/
theorem reports_in_declared_name (hline : (line, n) ∈ numbered (mask code))
    (hfound : (place, name) ∈ findAll declared? line) :
    name ∈ declaredNames (mask code) ∧ ∃ before rest, Introduces line place before name rest ∧
      (∀ d, (d ∈ find code ∧ PointsInto d n before name) ↔
        ∃ v word w, name.toList = v ++ (String.toList word ++ w) ∧ IsWord v word.toList w ∧
          word ∉ declaredNames (mask code) ∧ word ∉ knownNames ∧
          (w = [] → ¬ KeyAt line (before.length + name.length)) ∧
          d = .warning ⟨n, (before ++ v).length + 1⟩ ("'" ++ word ++ "' might be undefined")) ∧
      ((∀ c ∈ name.toList, isIdentChar c = true) →
        ∀ d ∈ find code, ¬ PointsInto d n before name) := by
  have hdeclared := mem_declaredNames hline hfound
  obtain ⟨before, rest, h⟩ := exists_introduces hfound
  have hreports : ∀ d, (d ∈ find code ∧ PointsInto d n before name) ↔
      ∃ v word w, name.toList = v ++ (String.toList word ++ w) ∧ IsWord v word.toList w ∧
        word ∉ declaredNames (mask code) ∧ word ∉ knownNames ∧
        (w = [] → ¬ KeyAt line (before.length + name.length)) ∧
        d = .warning ⟨n, (before ++ v).length + 1⟩ ("'" ++ word ++ "' might be undefined") := by
    intro d
    constructor
    · rintro ⟨hd, hn, hstart, hstop⟩
      obtain ⟨a, word, b, htext, hw, hsuspect, rfl⟩ := (mem_find_iff hline).mp ⟨hd, hn⟩
      obtain ⟨v, w, rfl, rfl, hname, hw⟩ := h.exists_word_name htext hw (Nat.le_of_lt_succ hstart)
        (Nat.lt_of_succ_le hstop)
      obtain ⟨hfree, hunknown, hkey⟩ := (h.isSuspect_iff hline hname).mp hsuspect
      exact ⟨v, word, w, hname, hw, hfree, hunknown, hkey, rfl⟩
    · rintro ⟨v, word, w, hname, hw, hfree, hunknown, hkey, rfl⟩
      have hsuspect := (h.isSuspect_iff hline hname).mpr ⟨hfree, hunknown, hkey⟩
      have htext : line = (before ++ v) ++ (word.toList ++ (w ++ rest)) := by
        rw [h.line_eq, hname]
        simp
      have hd := (mem_find_iff hline).mpr
        ⟨before ++ v, word, w ++ rest, htext, h.isWord_line hname hw, hsuspect, rfl⟩
      have hpos := List.length_pos_of_ne_nil hw.ne_nil
      refine ⟨hd.1, rfl, ?_, ?_⟩
      · dsimp only [Diagnostic.warning]
        rw [List.length_append]
        omega
      · dsimp only [Diagnostic.warning]
        rw [← String.length_toList (s := name), hname]
        simp only [List.length_append]
        omega
  refine ⟨hdeclared, before, rest, h, hreports, ?_⟩
  intro hascii d hd hinto
  obtain ⟨v, word, w, hname, hw, hfree, -⟩ := (hreports d).mp ⟨hd, hinto⟩
  obtain rfl : word = name := eq_of_ascii hw hname hascii
  exact hfree hdeclared

namespace Sample

/-- Introduces a name with a letter that is not in ASCII. -/
def accented : List Char := "let naïve = 1;".toList

/-- The words on both sides of that letter are reported. -/
theorem reports_in_accented : (accented, 1) ∈ numbered (mask accented) ∧
    (0, "naïve") ∈ findAll declared? accented ∧
    .warning ⟨1, 5⟩ "'na' might be undefined" ∈ find accented ∧
    .warning ⟨1, 8⟩ "'ve' might be undefined" ∈ find accented := by
  have hline : (accented, 1) ∈ numbered (mask accented) := by decide +kernel
  have hfound : (0, "naïve") ∈ findAll declared? accented := by decide +kernel
  obtain ⟨-, before, rest, h, hreports, -⟩ := reports_in_declared_name hline hfound
  have hplace : ∀ k ≤ accented.length, (accented.drop k).take 5 = "naïve".toList → k = 4 := by
    decide +kernel
  have hbefore : before.length = 4 := by
    apply hplace
    · rw [h.line_eq]
      simp
    · rw [h.line_eq, List.drop_left]
      rfl
  have hna : IsWord [] "na".toList "ïve".toList := by decide +kernel
  have hve : IsWord "naï".toList "ve".toList [] := by decide +kernel
  have hfirst := (hreports (.warning ⟨1, 5⟩ "'na' might be undefined")).mpr
    ⟨[], "na", "ïve".toList, rfl, hna, by decide +kernel, by decide +kernel,
      fun h => absurd h (by decide), by simp [hbefore]⟩
  have hsecond := (hreports (.warning ⟨1, 8⟩ "'ve' might be undefined")).mpr
    ⟨"naï".toList, "ve", [], rfl, hve, by decide +kernel, by decide +kernel,
      fun _ => by rw [hbefore]; decide +kernel, by simp [hbefore]⟩
  exact ⟨hline, hfound, hfirst.1, hsecond.1⟩

/-- Not every name is free of reports where it is introduced. -/
theorem not_silent_where_introduced :
    ¬∀ (code line before rest : List Char) (n place : ℕ) (name : String),
      (line, n) ∈ numbered (mask code) → (place, name) ∈ findAll declared? line →
      Introduces line place before name rest → ∀ d ∈ find code, ¬ PointsInto d n before name := by
  intro h
  have hintroduces : Introduces accented 0 "let ".toList "naïve" " = 1;".toList :=
    ⟨by decide, ⟨"let", by decide, [' '], by decide, by decide,
      List.forall_mem_singleton.mpr (by decide)⟩, by decide +kernel⟩
  have hreported : .warning ⟨1, 5⟩ "'na' might be undefined" ∈ find accented := by
    decide +kernel
  exact h accented accented _ _ 1 0 "naïve" (by decide +kernel) (by decide +kernel) hintroduces _
    hreported ⟨rfl, by decide, by decide⟩

end Sample

end SnippetLint.UndefinedName
