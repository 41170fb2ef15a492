import SnippetLint.Proofs.Text.WordRun

/-! What readers take from the front of a text, and that a search finds what its reader takes at
some place of the text. -/
namespace SnippetLint.Text

variable {α : Type} {cs rest : List Char} {before : Option Char}

theorem exists_append_skipBlanks (cs : List Char) :
    ∃ blanks, cs = blanks ++ skipBlanks cs ∧ ∀ c ∈ blanks, isBlank c = true :=
  ⟨cs.takeWhile isBlank, List.takeWhile_append_dropWhile.symm,
    fun _ hc => List.mem_takeWhile_imp hc⟩

/-- The blanks, as ascending closed ranges of code points. -/
def blankRanges : List (ℕ × ℕ) := [
  (9, 13), (0x20, 0x20), (0x85, 0x85), (0xA0, 0xA0), (0x1680, 0x1680), (0x2000, 0x200A),
  (0x2028, 0x2029), (0x202F, 0x202F), (0x205F, 0x205F), (0x3000, 0x3000)]

theorem exists_range_of_isBlank {c : Char} (h : isBlank c = true) :
    ∃ b ∈ blankRanges, b.1 ≤ c.toNat ∧ c.toNat ≤ b.2 := by
  simp only [isBlank, Bool.or_eq_true, Bool.and_eq_true, decide_eq_true_eq, beq_iff_eq] at h
  simp only [blankRanges, List.exists_mem_cons_iff, List.not_mem_nil, false_and, exists_false]
  omega

/-- No blank is in a range of word characters. -/
theorem blankRanges_apart :
    (blankRanges.all fun b => wordRanges.all fun r => b.2.blt r.1 || r.2.blt b.1) = true := by
  decide +kernel

theorem le_toNat_of_isAlphanum {c : Char} (h : c.isAlphanum = true) : 48 ≤ c.toNat := by
  rcases (Bool.or_eq_true _ _).mp h with h | h
  · exact Nat.le_trans (by decide) (toNat_of_isAlpha h)
  · exact (toNat_of_isDigit h).1

theorem isWordChar_of_isBlank {c : Char} (h : isBlank c = true) : isWordChar c = false := by
  obtain ⟨b, hb, hlow, hhigh⟩ := exists_range_of_isBlank h
  unfold isWordChar
  split_ifs with hascii
  · have hsmall : ∀ b ∈ blankRanges, b.1 < 128 → b.2 < 48 := by decide
    have hlt := Nat.lt_of_le_of_lt hhigh (hsmall b hb (Nat.lt_of_le_of_lt hlow hascii))
    rw [Bool.eq_false_iff]
    intro hword
    rcases (Bool.or_eq_true _ _).mp hword with hword | hword
    · exact Nat.not_le.mpr hlt (le_toNat_of_isAlphanum hword)
    · rw [beq_iff_eq.mp hword] at hlt
      exact absurd hlt (by decide)
  · have hapart := List.all_eq_true.mp (List.all_eq_true.mp blankRanges_apart b hb)
    rw [List.any_eq_false]
    intro r hr
    have hr' := hapart r hr
    rw [Bool.or_eq_true, Nat.blt_eq, Nat.blt_eq] at hr'
    rw [Bool.and_eq_true, decide_eq_true_eq, decide_eq_true_eq]
    omega

theorem wordEnd_iff : wordEnd rest = true ↔ ∀ c ∈ rest.head?, isWordChar c = false := by
  cases rest <;> simp [wordEnd]

/-- A word ends where blanks come after it. -/
theorem wordEnd_append {blanks : List Char} (h : ∀ c ∈ blanks, isBlank c = true)
    (he : blanks = [] → wordEnd rest = true) : wordEnd (blanks ++ rest) = true := by
  cases blanks with
  | nil => exact he rfl
  | cons c blanks =>
    have hc := isWordChar_of_isBlank (h c List.mem_cons_self)
    simp [wordEnd, hc]

theorem wholeWord?_append {w : String} (hs : wordStart before = true) (he : wordEnd rest = true) :
    wholeWord? w before (w.toList ++ rest) = some rest := by
  have hfront : w.toList.isPrefixOf? (w.toList ++ rest) = some rest :=
    List.isPrefixOf?_eq_some_iff_append_eq.mpr rfl
  rw [wholeWord?, if_pos hs, hfront, Option.filter_some, if_pos he]

theorem skipBlanks_append {blanks : List Char} (h : ∀ c ∈ blanks, isBlank c = true)
    (hr : ∀ c ∈ rest.head?, isBlank c = false) : skipBlanks (blanks ++ rest) = rest :=
  dropWhile_run h hr

/-- Two characters that a condition tells apart. -/
theorem beq_eq_false_of_pred {p : Char → Bool} {c d : Char} (hc : p c = true) (hd : p d = false) :
    (c == d) = false := by
  rw [beq_eq_false_iff_ne]
  rintro rfl
  exact absurd (hc.symm.trans hd) (by decide)

theorem isBlank_head?_cons {d : Char} (h : isBlank d = false) (cs : List Char) :
    ∀ c ∈ (d :: cs).head?, isBlank c = false := by
  rintro c ⟨⟩
  exact h

theorem skipBlanks1?_append {blanks : List Char} (hne : blanks ≠ [])
    (h : ∀ c ∈ blanks, isBlank c = true) (hr : ∀ c ∈ rest.head?, isBlank c = false) :
    skipBlanks1? (blanks ++ rest) = some rest := by
  obtain ⟨c, cs, rfl⟩ := List.exists_cons_of_ne_nil hne
  obtain ⟨hc, hcs⟩ := List.forall_mem_cons.mp h
  rw [List.cons_append, skipBlanks1?, if_pos hc, skipBlanks_append hcs hr]

/-! ### What stands at the front -/

theorem char?_eq_some_iff {c : Char} : char? c cs = some rest ↔ cs = c :: rest := by
  cases cs with
  | nil => simp [char?]
  | cons d ds => simp [char?, eq_comm]

theorem skipBlanks_eq_iff : skipBlanks cs = rest ↔
    ∃ blanks, cs = blanks ++ rest ∧ (∀ c ∈ blanks, isBlank c = true) ∧
      ∀ c ∈ rest.head?, isBlank c = false := by
  constructor
  · rintro rfl
    obtain ⟨blanks, hcs, hblanks⟩ := exists_append_skipBlanks cs
    exact ⟨blanks, hcs, hblanks, head?_dropWhile isBlank cs⟩
  · rintro ⟨blanks, rfl, hblanks, hr⟩
    exact skipBlanks_append hblanks hr

theorem skipBlanks1?_eq_some_iff : skipBlanks1? cs = some rest ↔
    ∃ blanks, cs = blanks ++ rest ∧ blanks ≠ [] ∧ (∀ c ∈ blanks, isBlank c = true) ∧
      ∀ c ∈ rest.head?, isBlank c = false := by
  constructor
  · intro h
    cases cs with
    | nil => exact absurd h (by simp [skipBlanks1?])
    | cons c cs =>
      rw [skipBlanks1?] at h
      split_ifs at h with hc
      obtain ⟨blanks, rfl, hblanks, hr⟩ := skipBlanks_eq_iff.mp (Option.some.inj h)
      exact ⟨c :: blanks, rfl, List.cons_ne_nil _ _, List.forall_mem_cons.mpr ⟨hc, hblanks⟩, hr⟩
  · rintro ⟨blanks, rfl, hne, hblanks, hr⟩
    exact skipBlanks1?_append hne hblanks hr

theorem wholeWord?_eq_some_iff {w : String} : wholeWord? w before cs = some rest ↔
    cs = w.toList ++ rest ∧ wordStart before = true ∧ wordEnd rest = true := by
  constructor
  · intro h
    unfold wholeWord? at h
    split_ifs at h with hs
    obtain ⟨hbegin, he⟩ := Option.filter_eq_some_iff.mp h
    exact ⟨(List.isPrefixOf?_eq_some_iff_append_eq.mp hbegin).symm, hs, he⟩
  · rintro ⟨rfl, hs, he⟩
    exact wholeWord?_append hs he

/-- Of words without other characters in them, one stands whole at the front at most. -/
theorem oneOfWords?_eq_some_iff {ws : List String}
    (hws : ∀ w ∈ ws, ∀ c ∈ w.toList, isWordChar c = true) :
    oneOfWords? ws before cs = some rest ↔
      (∃ w ∈ ws, cs = w.toList ++ rest) ∧ wordStart before = true ∧ wordEnd rest = true := by
  constructor
  · intro h
    obtain ⟨w, hw, hread⟩ := List.exists_of_findSome?_eq_some h
    obtain ⟨hcs, hs, he⟩ := wholeWord?_eq_some_iff.mp hread
    exact ⟨⟨w, hw, hcs⟩, hs, he⟩
  · rintro ⟨⟨w, hw, hcs⟩, hs, he⟩
    have hread := wholeWord?_eq_some_iff.mpr ⟨hcs, hs, he⟩
    cases hfound : oneOfWords? ws before cs with
    | none => exact absurd hread (by rw [List.findSome?_eq_none_iff.mp hfound w hw]; simp)
    | some other =>
      obtain ⟨v, hv, hread'⟩ := List.exists_of_findSome?_eq_some hfound
      obtain ⟨hcs', -, he'⟩ := wholeWord?_eq_some_iff.mp hread'
      have hrun : v.toList = w.toList := by
        rw [← takeWhile_run (hws v hv) (wordEnd_iff.mp he'), ← hcs', hcs,
          takeWhile_run (hws w hw) (wordEnd_iff.mp he)]
      rw [hcs', hrun] at hcs
      rw [List.append_cancel_left hcs]

/-! ### Somewhere in a text -/

theorem occursFrom_iff {p : Option Char → List Char → Bool} {text : List Char} :
    occursFrom p before text = true ↔
      ∃ u t, text = u ++ t ∧ t ≠ [] ∧ p (u.getLast?.or before) t = true := by
  induction text generalizing before with
  | nil =>
    refine iff_of_false (by simp [occursFrom]) ?_
    rintro ⟨u, t, htext, hne, -⟩
    exact hne (List.append_eq_nil_iff.mp htext.symm).2
  | cons c cs ih =>
    rw [occursFrom, Bool.or_eq_true, ih]
    constructor
    · rintro (h | ⟨u, t, rfl, hne, h⟩)
      · exact ⟨[], c :: cs, rfl, List.cons_ne_nil c cs, h⟩
      · exact ⟨c :: u, t, rfl, hne, by rwa [getLast?_cons_or]⟩
    · rintro ⟨u, t, htext, hne, h⟩
      cases u with
      | nil =>
        obtain rfl : c :: cs = t := htext
        exact .inl h
      | cons d u =>
        obtain ⟨rfl, rfl⟩ := List.cons.inj htext
        rw [getLast?_cons_or] at h
        exact .inr ⟨u, t, rfl, hne, h⟩

theorem occurs_iff {p : Option Char → List Char → Bool} {text : List Char} :
    occurs p text = true ↔ ∃ u t, text = u ++ t ∧ t ≠ [] ∧ p u.getLast? t = true := by
  simp only [occurs, occursFrom_iff, Option.or_none]

/-- The word stands somewhere in the text with no word character on either side. -/
theorem hasWord_iff {w : String} {text : List Char} (hw : w.toList ≠ []) :
    hasWord w text = true ↔ ∃ u rest, text = u ++ (w.toList ++ rest) ∧
      wordStart u.getLast? = true ∧ wordEnd rest = true := by
  simp only [hasWord, occurs_iff, Option.isSome_iff_exists, wholeWord?_eq_some_iff]
  constructor
  · rintro ⟨u, t, rfl, -, rest, rfl, hs, he⟩
    exact ⟨u, rest, rfl, hs, he⟩
  · rintro ⟨u, rest, rfl, hs, he⟩
    exact ⟨u, _, rfl, by simp [hw], rest, rfl, hs, he⟩

/-! ### Words and names -/

theorem isWord_iff {before run rest : List Char} : IsWord before run rest ↔
    run ≠ [] ∧ run.all isIdentChar = true ∧ run.head?.all (fun c => !c.isDigit) = true ∧
      before.getLast?.all (fun c => !isIdentChar c) = true ∧
      rest.head?.all (fun c => !isIdentChar c) = true := by
  simp only [List.all_eq_true, Option.all_eq_true, Bool.not_eq_true']
  constructor
  · rintro ⟨hne, hall, hfirst, hleft, hright⟩
    exact ⟨hne, hall, hfirst, hleft, hright⟩
  · rintro ⟨hne, hall, hfirst, hleft, hright⟩
    exact ⟨hne, hall, hfirst, hleft, hright⟩

instance (before run rest : List Char) : Decidable (IsWord before run rest) :=
  decidable_of_iff' _ isWord_iff

theorem toNat_of_isIdentChar {c : Char} (h : isIdentChar c = true) :
    65 ≤ c.toNat ∧ c.toNat ≤ 90 ∨ 97 ≤ c.toNat ∧ c.toNat ≤ 122 ∨
      48 ≤ c.toNat ∧ c.toNat ≤ 57 ∨ c.toNat = 95 ∨ c.toNat = 36 := by
  change (decide ('A'.val ≤ c.val ∧ c.val ≤ 'Z'.val) ||
    (decide ('a'.val ≤ c.val) && decide (c.val ≤ 'z'.val)) ||
    (decide ('0'.val ≤ c.val) && decide (c.val ≤ '9'.val)) || c == '_' || c == '$') = true at h
  simp only [Bool.or_eq_true, Bool.and_eq_true, decide_eq_true_eq, beq_iff_eq,
    UInt32.le_iff_toNat_le] at h
  have hc : c.toNat = c.val.toNat := rfl
  have hupper : 'A'.val.toNat = 65 ∧ 'Z'.val.toNat = 90 := by decide
  have hlower : 'a'.val.toNat = 97 ∧ 'z'.val.toNat = 122 := by decide
  have hdigit : '0'.val.toNat = 48 ∧ '9'.val.toNat = 57 := by decide
  rcases h with (h | rfl) | rfl
  · omega
  · decide
  · decide

theorem isNameChar_of_isIdentChar {c : Char} (h : isIdentChar c = true) : isNameChar c = true := by
  have hascii : c.toNat < 128 := by
    have hrange := toNat_of_isIdentChar h
    omega
  simpa [isNameChar, isWordChar, hascii, isIdentChar] using h

theorem isIdentChar_of_isBlank {c : Char} (h : isBlank c = true) : isIdentChar c = false := by
  rw [Bool.eq_false_iff]
  intro hident
  have hrange := toNat_of_isIdentChar hident
  simp only [isBlank, Bool.or_eq_true, Bool.and_eq_true, decide_eq_true_eq, beq_iff_eq] at h
  omega

/-- A whole name stands in front of the rest. -/
structure IsName (name rest : List Char) : Prop where
  first : ∃ c ∈ name.head?, isIdentStart c = true
  all : ∀ c ∈ name, isNameChar c = true
  right : ∀ c ∈ rest.head?, isNameChar c = false

theorem isName_iff {name rest : List Char} : IsName name rest ↔
    name.head?.any isIdentStart = true ∧ name.all isNameChar = true ∧
      rest.head?.all (fun c => !isNameChar c) = true := by
  simp only [List.all_eq_true, Option.all_eq_true, Option.any_eq_true, Bool.not_eq_true']
  constructor
  · rintro ⟨hfirst, hall, hright⟩
    exact ⟨hfirst, hall, hright⟩
  · rintro ⟨hfirst, hall, hright⟩
    exact ⟨hfirst, hall, hright⟩

instance (name rest : List Char) : Decidable (IsName name rest) :=
  decidable_of_iff' _ isName_iff

theorem IsName.isIdentStart_head? {name : List Char} (h : IsName name rest) :
    ∀ c ∈ (name ++ rest).head?, isIdentStart c = true := by
  obtain ⟨d, hd, hstart⟩ := h.first
  obtain ⟨ds, rfl⟩ := List.head?_eq_some_iff.mp hd
  rintro c ⟨⟩
  exact hstart

theorem IsName.name?_append {name : String} (h : IsName name.toList rest) :
    name? (name.toList ++ rest) = some (name, rest) := by
  obtain ⟨c, hc, hstart⟩ := h.first
  obtain ⟨cs, hname⟩ := List.head?_eq_some_iff.mp hc
  have hall : ∀ d ∈ cs, isNameChar d = true := fun d hd =>
    h.all d (hname ▸ List.mem_cons_of_mem c hd)
  rw [hname, List.cons_append, name?, if_pos hstart, takeWhile_run hall h.right,
    dropWhile_run hall h.right, ← hname, String.ofList_toList]

theorem name?_eq_some {name : String} (h : name? cs = some (name, rest)) :
    cs = name.toList ++ rest ∧ IsName name.toList rest := by
  cases cs with
  | nil => exact absurd h (by simp [name?])
  | cons c cs =>
    rw [name?] at h
    split_ifs at h with hc
    obtain ⟨rfl, rfl⟩ := Prod.mk.inj (Option.some.inj h)
    rw [String.toList_ofList]
    have hstart : isNameChar c = true := isNameChar_of_isIdentChar (isIdentChar_of_isIdentStart hc)
    exact ⟨by rw [List.cons_append, List.takeWhile_append_dropWhile], ⟨c, rfl, hc⟩,
      List.forall_mem_cons.mpr ⟨hstart, fun d hd => List.mem_takeWhile_imp hd⟩,
      head?_dropWhile isNameChar cs⟩

end SnippetLint.Text
