import Mathlib.Data.List.TakeWhile
import SnippetLint.Proofs.Text.Bytes
import SnippetLint.Proofs.Text.Place

/-! The words of a line run by run. An identifier may be found behind the digits that a run begins
with, but then the digit before it gives it away: what is left are the whole runs that no digit
begins. -/
namespace SnippetLint.Text

variable {before run rest line : List Char}

/-- Reads run after run. Those that a digit begins are left out. -/
def wordsFrom (offset column : Nat) : List Char → List Word
  | [] => []
  | c :: cs =>
    if isIdentChar c then
      let run := c :: cs.takeWhile isIdentChar
      let rest := wordsFrom (offset + run.length) (column + run.length) (cs.dropWhile isIdentChar)
      if c.isDigit then rest else ⟨String.ofList run, offset, column⟩ :: rest
    else wordsFrom (offset + c.utf8Size) (column + 1) cs
termination_by cs => cs.length
decreasing_by
  · exact Nat.lt_succ_of_le ((List.dropWhile_suffix _).length_le)
  · exact Nat.lt_succ_self _

theorem utf8Size_of_isIdentChar {c : Char} (h : isIdentChar c = true) : c.utf8Size = 1 := by
  rw [Char.utf8Size_eq_one_iff]
  change (decide ('A'.val ≤ c.val ∧ c.val ≤ 'Z'.val) ||
    (decide ('a'.val ≤ c.val) && decide (c.val ≤ 'z'.val)) ||
    (decide ('0'.val ≤ c.val) && decide (c.val ≤ '9'.val)) || c == '_' || c == '$') = true at h
  simp only [Bool.or_eq_true, Bool.and_eq_true, decide_eq_true_eq, beq_iff_eq] at h
  rcases h with (((h | h) | h) | rfl) | rfl
  · exact UInt32.le_trans h.2 (by decide)
  · exact UInt32.le_trans h.2 (by decide)
  · exact UInt32.le_trans h.2 (by decide)
  · decide
  · decide

theorem byteLength_run (h : ∀ c ∈ run, isIdentChar c = true) : byteLength run = run.length := by
  induction run with
  | nil => rfl
  | cons c cs ih =>
    rw [byteLength, utf8Size_of_isIdentChar (h c List.mem_cons_self),
      ih fun d hd => h d (List.mem_cons_of_mem c hd), List.length_cons, Nat.add_comm]

theorem isIdentChar_of_mem_run {c : Char} (hc : isIdentChar c = true) (cs : List Char) :
    ∀ d ∈ c :: cs.takeWhile isIdentChar, isIdentChar d = true := by
  intro d hd
  rcases List.mem_cons.mp hd with rfl | hd
  · exact hc
  · exact List.mem_takeWhile_imp hd

theorem byteLength_append_run {c : Char} (hc : isIdentChar c = true) (before cs : List Char) :
    byteLength (before ++ c :: cs.takeWhile isIdentChar) =
      byteLength before + (c :: cs.takeWhile isIdentChar).length := by
  rw [byteLength_append, byteLength_run (isIdentChar_of_mem_run hc cs)]

/-- A text that starts with an identifier character cuts no run if `before` does not end in one. -/
theorem left_of_ident {c : Char} (hc : isIdentChar c = true) {cs : List Char}
    (h : (∀ d ∈ before.getLast?, isIdentChar d = false) ∨
      ∀ d ∈ (c :: cs).head?, isIdentChar d = false) :
    ∀ d ∈ before.getLast?, isIdentChar d = false := by
  refine h.resolve_right fun hr => ?_
  have hnot := hr c rfl
  rw [hc] at hnot
  exact absurd hnot (by decide)

theorem isIdentChar_of_isIdentStart {c : Char} (h : isIdentStart c = true) :
    isIdentChar c = true := by
  simp only [isIdentStart, isIdentChar, Char.isAlphanum, Bool.or_eq_true] at h ⊢
  tauto

theorem toNat_of_isDigit {c : Char} (h : c.isDigit = true) : 48 ≤ c.toNat ∧ c.toNat ≤ 57 := by
  simp only [Char.isDigit, Bool.and_eq_true, decide_eq_true_eq, ge_iff_le,
    UInt32.le_iff_toNat_le] at h
  exact h

theorem toNat_of_isAlpha {c : Char} (h : c.isAlpha = true) : 65 ≤ c.toNat := by
  change (decide ('A'.val ≤ c.val ∧ c.val ≤ 'Z'.val) ||
    (decide ('a'.val ≤ c.val) && decide (c.val ≤ 'z'.val))) = true at h
  simp only [Bool.or_eq_true, Bool.and_eq_true, decide_eq_true_eq, UInt32.le_iff_toNat_le] at h
  have hupper : 'A'.val.toNat = 65 := by decide
  have hlower : 'a'.val.toNat = 97 := by decide
  have hc : c.toNat = c.val.toNat := rfl
  omega

theorem isDigit_eq_false_of_isIdentChar {c : Char} (h : isIdentChar c = false) :
    c.isDigit = false := by
  simp only [isIdentChar, Char.isAlphanum, Bool.or_eq_false_iff] at h
  exact h.1.1.2

theorem isDigit_eq_false_of_isIdentStart {c : Char} (h : isIdentStart c = true) :
    c.isDigit = false := by
  rw [Bool.eq_false_iff]
  intro hd
  have hdigit := toNat_of_isDigit hd
  simp only [isIdentStart, Bool.or_eq_true, beq_iff_eq] at h
  rcases h with (h | rfl) | rfl
  · have := toNat_of_isAlpha h
    omega
  · exact absurd hd (by decide)
  · exact absurd hd (by decide)

theorem isIdentStart_iff {c : Char} :
    isIdentStart c = true ↔ isIdentChar c = true ∧ c.isDigit = false := by
  constructor
  · exact fun h => ⟨isIdentChar_of_isIdentStart h, isDigit_eq_false_of_isIdentStart h⟩
  · rintro ⟨hc, hd⟩
    simpa [isIdentStart, isIdentChar, Char.isAlphanum, hd] using hc

/-! ### Identifiers that are found -/

/-- The words at the places of a line where an identifier was found. -/
def wordsAt (line : List Char) (found : List (ℕ × List Char)) : List Word :=
  (found.filter fun (place, _) => !(line.take place).getLast?.any Char.isDigit).map
    fun (place, run) => ⟨String.ofList run, byteLength (line.take place), place + 1⟩

/-- Identifiers from a place on. What comes before does not matter. -/
def identifiersFrom (place : ℕ) (cs : List Char) : List (ℕ × List Char) :=
  findAllFrom (fun _ => identifier?) place none 0 cs

theorem findAllFrom_identifier? (place : ℕ) (before : Option Char) (cs : List Char) :
    findAllFrom (fun _ => identifier?) place before 0 cs = identifiersFrom place cs := by
  cases cs <;> rfl

theorem wordsAt_cons (before : List Char) (run rest : List Char) (found : List (ℕ × List Char)) :
    wordsAt (before ++ rest) ((before.length, run) :: found) =
      if before.getLast?.any Char.isDigit then wordsAt (before ++ rest) found
      else ⟨String.ofList run, byteLength before, before.length + 1⟩ ::
        wordsAt (before ++ rest) found := by
  simp only [wordsAt, List.filter_cons, List.take_left]
  cases before.getLast?.any Char.isDigit with
  | true => rfl
  | false => rw [Bool.not_false, if_pos rfl, List.map_cons, List.take_left]; rfl

theorem identifiersFrom_of_isIdentStart {c : Char} (hc : isIdentStart c = true) (place : ℕ)
    (cs : List Char) :
    identifiersFrom place (c :: cs) = (place, c :: cs.takeWhile isIdentChar) ::
      identifiersFrom (place + (c :: cs.takeWhile isIdentChar).length)
        (cs.dropWhile isIdentChar) := by
  have hread : identifier? (c :: (cs.takeWhile isIdentChar ++ cs.dropWhile isIdentChar)) =
      some (c :: cs.takeWhile isIdentChar, cs.dropWhile isIdentChar) := by
    rw [List.takeWhile_append_dropWhile, identifier?, if_pos hc]
  have hfound := @findAllFrom_of_read _ (fun _ => identifier?) _ _ _ _ place none hread
  rw [List.takeWhile_append_dropWhile] at hfound
  simpa only [findAllFrom_identifier?] using hfound

theorem identifiersFrom_of_not_isIdentStart {c : Char} (hc : isIdentStart c = false) (place : ℕ)
    (cs : List Char) : identifiersFrom place (c :: cs) = identifiersFrom (place + 1) cs := by
  have hread : identifier? (c :: cs) = none := by
    rw [identifier?, hc, if_neg Bool.false_ne_true]
  rw [identifiersFrom, findAllFrom, hread]
  exact findAllFrom_identifier? _ _ cs

/-- Behind a digit the rest of a run gives no word: at most one identifier is found in it, which
starts right after a digit. -/
theorem wordsAt_run_of_digit (hrun : ∀ c ∈ run, isIdentChar c = true)
    (hrest : ∀ c ∈ rest.head?, isIdentChar c = false)
    (hbefore : before.getLast?.any Char.isDigit = true) :
    wordsAt (before ++ (run ++ rest)) (identifiersFrom before.length (run ++ rest)) =
      wordsAt (before ++ (run ++ rest)) (identifiersFrom (before ++ run).length rest) := by
  induction run generalizing before with
  | nil => rw [List.append_nil, List.nil_append]
  | cons c run ih =>
    obtain ⟨hc, hrun'⟩ := List.forall_mem_cons.mp hrun
    cases hstart : isIdentStart c with
    | true =>
      rw [List.cons_append, identifiersFrom_of_isIdentStart hstart, takeWhile_run hrun' hrest,
        dropWhile_run hrun' hrest, wordsAt_cons, if_pos hbefore, List.length_append]
    | false =>
      have hdigit : c.isDigit = true := by
        by_contra hd
        rw [Bool.not_eq_true] at hd
        rw [isIdentStart_iff.mpr ⟨hc, hd⟩] at hstart
        exact absurd hstart (by decide)
      have hlast : (before ++ [c]).getLast?.any Char.isDigit = true := by
        rw [List.getLast?_concat]
        exact hdigit
      have hnext := ih hrun' hlast
      rw [List.append_assoc, List.append_assoc, List.length_append] at hnext
      rw [List.cons_append, identifiersFrom_of_not_isIdentStart hstart]
      exact hnext

theorem append_run_append (before cs : List Char) (c : Char) :
    before ++ c :: cs.takeWhile isIdentChar ++ cs.dropWhile isIdentChar = before ++ c :: cs := by
  rw [List.append_assoc, List.cons_append, List.takeWhile_append_dropWhile]

/-- Looking for identifiers where no run is cut in two finds the runs. -/
theorem wordsAt_identifiersFrom (before text : List Char)
    (h : (∀ c ∈ before.getLast?, isIdentChar c = false) ∨
      ∀ c ∈ text.head?, isIdentChar c = false) :
    wordsAt (before ++ text) (identifiersFrom before.length text) =
      wordsFrom (byteLength before) (before.length + 1) text := by
  generalize ho : byteLength before = offset
  generalize hn : before.length + 1 = column
  fun_induction wordsFrom offset column text generalizing before with
  | case1 => rfl
  | case2 offset column c cs hc run tail hd ih =>
    have hstart : isIdentStart c = false := by
      rw [Bool.eq_false_iff]
      intro hs
      rw [isDigit_eq_false_of_isIdentStart hs] at hd
      exact absurd hd (by decide)
    have htail := ih (before ++ run) (Or.inr (head?_dropWhile isIdentChar cs))
      (by rw [byteLength_append_run hc, ho]) (by rw [List.length_append, ← hn]; omega)
    have hlast : (before ++ [c]).getLast?.any Char.isDigit = true := by
      rw [List.getLast?_concat]
      exact hd
    have hrun : ∀ d ∈ cs.takeWhile isIdentChar, isIdentChar d = true :=
      fun d hd => List.mem_takeWhile_imp hd
    have hskip := wordsAt_run_of_digit hrun (head?_dropWhile isIdentChar cs) hlast
    rw [List.takeWhile_append_dropWhile, List.append_assoc, List.append_assoc,
      List.length_append] at hskip
    rw [append_run_append] at htail
    rw [identifiersFrom_of_not_isIdentStart hstart]
    exact hskip.trans htail
  | case3 offset column c cs hc run tail hd ih =>
    rw [Bool.not_eq_true] at hd
    have hstart := isIdentStart_iff.mpr ⟨hc, hd⟩
    have hl := left_of_ident hc h
    have htail := ih (before ++ run) (Or.inr (head?_dropWhile isIdentChar cs))
      (by rw [byteLength_append_run hc, ho]) (by rw [List.length_append, ← hn]; omega)
    have hlast : before.getLast?.any Char.isDigit = false := by
      rw [Option.any_eq_false]
      exact fun d hd => isDigit_eq_false_of_isIdentChar (hl d hd)
    rw [append_run_append, List.length_append] at htail
    rw [identifiersFrom_of_isIdentStart hstart, wordsAt_cons, hlast, if_neg Bool.false_ne_true,
      htail, ho, hn]
  | case4 offset column c cs hc ih =>
    rw [Bool.not_eq_true] at hc
    have hstart : isIdentStart c = false := by
      rw [Bool.eq_false_iff]
      intro hs
      rw [isIdentChar_of_isIdentStart hs] at hc
      exact absurd hc (by decide)
    have hb : byteLength (before ++ [c]) = offset + c.utf8Size := by
      rw [byteLength_append, ho]
      rfl
    have hl : (before ++ [c]).length + 1 = column + 1 := by
      rw [List.length_append, ← hn]
      rfl
    have htail := ih (before ++ [c]) (Or.inl ?_) hb hl
    · rw [List.append_assoc, List.length_append] at htail
      rw [identifiersFrom_of_not_isIdentStart hstart]
      exact htail
    · intro d hd
      rw [List.getLast?_concat] at hd
      rwa [← Option.some.inj hd]

theorem words_eq_wordsFrom (line : List Char) : words line = wordsFrom 0 1 line :=
  wordsAt_identifiersFrom [] line (Or.inl fun _ h => absurd h (Option.not_mem_none _))

end SnippetLint.Text
