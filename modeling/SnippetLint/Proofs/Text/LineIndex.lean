import SnippetLint.Proofs.Text.Bytes
import SnippetLint.Proofs.Text.Lines

/-! The table of line starts agrees with the lines of the text, and no reading of it fails: it is
never left, no number goes below zero, and a text is cut at boundaries alone. -/
namespace SnippetLint.Text

/-- What a search in a table without repetitions has to answer. -/
def Slot.Fits (xs : Array ℕ) (x : ℕ) : Slot → Prop
  | .found i => xs[i]? = some x
  | .gap i => i ≤ xs.size ∧ (∀ j (h : j < xs.size), j < i → xs[j] < x) ∧
      ∀ j (h : j < xs.size), i ≤ j → x < xs[j]

section search

variable {xs : Array ℕ} (hs : ∀ i j (hi : i < xs.size) (hj : j < xs.size), i < j → xs[i] < xs[j])
include hs

/-- All that is left out of the part `lo .. hi` is too small on the left and too great on the
right. -/
theorem fits_searchBetween {x lo hi : ℕ} (h : hi ≤ xs.size) (hle : lo ≤ hi)
    (below : ∀ j (hj : j < xs.size), j < lo → xs[j] < x)
    (above : ∀ j (hj : j < xs.size), hi ≤ j → x < xs[j]) :
    (searchBetween xs x lo hi h).Fits xs x := by
  fun_induction searchBetween xs x lo hi h with
  | case1 lo hi h hlt middle heq =>
    have hm : middle < xs.size := by omega
    exact Array.getElem?_eq_some_iff.mpr ⟨hm, heq⟩
  | case2 lo hi h hlt middle hne hless ih =>
    apply ih (by omega) ?_ above
    intro j hj hjm
    rcases Nat.lt_or_eq_of_le (Nat.le_of_lt_succ hjm) with hjm | rfl
    · exact (hs j middle hj (by omega) hjm).trans hless
    · exact hless
  | case3 lo hi h hlt middle hne hless ih =>
    have hmore : x < xs[middle] := by omega
    apply ih (by omega) below
    intro j hj hmj
    rcases Nat.lt_or_eq_of_le hmj with hmj | rfl
    · exact hmore.trans (hs middle j (by omega) hj hmj)
    · exact hmore
  | case4 lo hi h hlt =>
    have heq : hi = lo := by omega
    subst heq
    exact ⟨h, below, above⟩

theorem fits_search (x : ℕ) : (search xs x).Fits xs x :=
  fits_searchBetween hs (Nat.le_refl _) (Nat.zero_le _) (fun _ _ h => absurd h (Nat.not_lt_zero _))
    fun _ h hle => absurd h (Nat.not_lt_of_le hle)

end search

namespace LineIndex

theorem startsAfter_append (offset : ℕ) (a b : List Char) :
    startsAfter offset (a ++ b) =
      startsAfter offset a ++ startsAfter (offset + byteLength a) b := by
  induction a generalizing offset with
  | nil => rfl
  | cons c cs ih =>
    rw [List.cons_append, startsAfter, startsAfter, ih, byteLength, Nat.add_assoc]
    split_ifs
    · rw [List.cons_append]
    · rfl

theorem utf8Size_lineFeed : '\n'.utf8Size = 1 := by decide

theorem bounds_of_mem_startsAfter {offset start : ℕ} {text : List Char}
    (h : start ∈ startsAfter offset text) : offset < start ∧ start ≤ offset + byteLength text := by
  induction text generalizing offset with
  | nil => exact absurd h List.not_mem_nil
  | cons c cs ih =>
    have hc := c.utf8Size_pos
    rw [startsAfter] at h
    rw [byteLength]
    split_ifs at h
    · rcases List.mem_cons.mp h with rfl | h
      · omega
      · have := ih h
        omega
    · have := ih h
      omega

theorem pairwise_startsAfter (offset : ℕ) (text : List Char) :
    (offset :: startsAfter offset text).Pairwise (· < ·) := by
  rw [List.pairwise_cons]
  refine ⟨fun _ h => (bounds_of_mem_startsAfter h).1, ?_⟩
  induction text generalizing offset with
  | nil => exact .nil
  | cons c cs ih =>
    rw [startsAfter]
    split_ifs with hc
    · subst hc
      refine List.pairwise_cons.mpr ⟨fun _ h => ?_, ih _⟩
      rw [utf8Size_lineFeed] at h
      exact (bounds_of_mem_startsAfter h).1
    · exact ih _

/-- The line of some number, what stands before and after it, and where the table has it. -/
theorem exists_line (offset : ℕ) {text line : List Char} {n : ℕ}
    (h : (lines text)[n]? = some line) :
    ∃ a b, text = a ++ line ++ b ∧
      (offset :: startsAfter offset text)[n]? = some (offset + byteLength a) ∧
      ((startsAfter offset text)[n]? = none ∧ b = [] ∨
        (startsAfter offset text)[n]? = some (offset + byteLength (a ++ line) + 1)) := by
  induction text generalizing offset line n with
  | nil =>
    cases n with
    | zero =>
      cases h
      exact ⟨[], [], rfl, rfl, Or.inl ⟨rfl, rfl⟩⟩
    | succ n => cases h
  | cons c cs ih =>
    rw [lines_cons] at h
    rw [startsAfter]
    by_cases hc : c = '\n'
    · subst hc
      rw [if_pos rfl] at h
      rw [if_pos rfl, utf8Size_lineFeed]
      cases n with
      | zero =>
        cases h
        exact ⟨[], '\n' :: cs, rfl, rfl, Or.inr rfl⟩
      | succ n =>
        obtain ⟨a, b, hs, hstart, hstop⟩ := ih (offset + 1) h
        have hl (d : List Char) :
            offset + byteLength ('\n' :: d) = offset + 1 + byteLength d := by
          rw [byteLength, utf8Size_lineFeed, Nat.add_assoc]
        refine ⟨'\n' :: a, b, by rw [hs]; rfl, ?_, ?_⟩
        · rw [hl]
          exact hstart
        · rw [List.cons_append, hl]
          exact hstop
    · rw [if_neg hc] at h
      rw [if_neg hc]
      obtain ⟨x, xs, hx⟩ := List.exists_cons_of_ne_nil (lines_ne_nil cs)
      have hl (d : List Char) :
          offset + byteLength (c :: d) = offset + c.utf8Size + byteLength d := by
        rw [byteLength, Nat.add_assoc]
      rw [hx] at h
      cases n with
      | zero =>
        cases h
        obtain ⟨a, b, hs, hstart, hstop⟩ := ih (offset + c.utf8Size) (n := 0) (by rw [hx]; rfl)
        have ha : a = [] := by
          by_contra hne
          have := byteLength_pos hne
          have := Option.some.inj hstart
          omega
        subst ha
        refine ⟨[], b, by rw [hs]; rfl, rfl, ?_⟩
        rw [List.nil_append, hl]
        exact hstop
      | succ n =>
        obtain ⟨a, b, hs, hstart, hstop⟩ :=
          ih (offset + c.utf8Size) (n := n + 1) (by rw [hx]; exact h)
        refine ⟨c :: a, b, by rw [hs]; rfl, ?_, ?_⟩
        · rw [hl]
          exact hstart
        · rw [List.cons_append, hl]
          exact hstop

theorem length_startsAfter (offset : ℕ) (text : List Char) :
    (startsAfter offset text).length + 1 = (lines text).length := by
  induction text generalizing offset with
  | nil => rfl
  | cons c cs ih =>
    rw [startsAfter, lines_cons]
    split_ifs
    · rw [List.length_cons, List.length_cons, ih]
    · rw [List.length_modifyHead, ih]

theorem lineCount_ofText (text : List Char) : (ofText text).lineCount = (lines text).length :=
  length_startsAfter 0 text

theorem sorted_ofText (text : List Char) (i j : ℕ) (hi : i < (ofText text).starts.size)
    (hj : j < (ofText text).starts.size) (h : i < j) :
    (ofText text).starts[i] < (ofText text).starts[j] :=
  List.pairwise_iff_getElem.mp (pairwise_startsAfter 0 text) i j hi hj h

theorem starts_append (a b : List Char) :
    (ofText (a ++ b)).starts =
      ((0 :: startsAfter 0 a) ++ startsAfter (byteLength a) b).toArray := by
  unfold ofText
  rw [startsAfter_append, Nat.zero_add]
  rfl

/-- The last start that is not past the offset. -/
theorem lineAt?_eq_some {text : List Char} {offset n : ℕ} (hn : n < (ofText text).starts.size)
    (hle : (ofText text).starts[n] ≤ offset)
    (hlt : ∀ h : n + 1 < (ofText text).starts.size, offset < (ofText text).starts[n + 1]) :
    (ofText text).lineAt? offset = some n := by
  have hs := sorted_ofText text
  have hfits := fits_search hs offset
  unfold lineAt?
  cases hslot : search (ofText text).starts offset with
  | found i =>
    rw [hslot] at hfits
    obtain ⟨hi, heq⟩ := Array.getElem?_eq_some_iff.mp hfits
    have hin : ¬ i < n := fun h => by
      have := hs i n hi hn h
      omega
    have hni : ¬ n < i := fun h => by
      have hnext := hlt (by omega)
      obtain rfl | h := Nat.eq_or_lt_of_le (show n + 1 ≤ i from h)
      · omega
      · have := hs (n + 1) i (by omega) hi h
        omega
    exact congrArg some (by omega)
  | gap i =>
    rw [hslot] at hfits
    obtain ⟨hi, hbelow, habove⟩ := hfits
    have hni : n < i := by
      by_contra h
      have := habove n hn (by omega)
      omega
    have hin : ¬ n + 1 < i := fun h => by
      have := hlt (by omega)
      have := hbelow (n + 1) (by omega) h
      omega
    have heq : i = n + 1 := by omega
    rw [heq]
    rfl

/-- Where the last line of a beginning of the text starts. -/
theorem exists_lastLine (a b : List Char) :
    ∃ p, a = p ++ lastLine a ∧
      (ofText (a ++ b)).starts[(lines a).length - 1]? = some (byteLength p) := by
  have hpos := length_lines_pos a
  have hlast : (lines a)[(lines a).length - 1]? = some (lastLine a) := by
    rw [← List.getLast?_eq_getElem?, List.getLast?_eq_some_getLast (lines_ne_nil a)]
    rfl
  obtain ⟨p, r, ha, hstart, hstop⟩ := exists_line 0 hlast
  have hn : (startsAfter 0 a)[(lines a).length - 1]? = none := by
    rw [List.getElem?_eq_none_iff, ← length_startsAfter 0 a]
    exact Nat.le_refl _
  rw [hn] at hstop
  have hr : r = [] := by
    rcases hstop with ⟨-, hr⟩ | hstop
    · exact hr
    · cases hstop
  subst hr
  rw [Nat.zero_add] at hstart
  refine ⟨p, by rwa [List.append_nil] at ha, ?_⟩
  rw [starts_append, List.getElem?_toArray, List.getElem?_append_left, hstart]
  rw [List.length_cons, length_startsAfter]
  omega

/-- The line in which a beginning of the text ends. -/
theorem lineAt?_byteLength (a b : List Char) :
    (ofText (a ++ b)).lineAt? (byteLength a) = some ((lines a).length - 1) := by
  have hpos := length_lines_pos a
  obtain ⟨p, ha, hstart⟩ := exists_lastLine a b
  obtain ⟨hn, heq⟩ := Array.getElem?_eq_some_iff.mp hstart
  refine lineAt?_eq_some hn ?_ fun h => ?_
  · rw [heq, ha, byteLength_append]
    exact Nat.le_add_right _ _
  · have hl : (0 :: startsAfter 0 a).length = (lines a).length := length_startsAfter 0 a
    have hmem : (ofText (a ++ b)).starts[(lines a).length - 1 + 1] ∈
        startsAfter (byteLength a) b := by
      simp only [starts_append, List.getElem_toArray]
      rw [List.getElem_append_right (by omega)]
      exact List.getElem_mem _
    exact (bounds_of_mem_startsAfter hmem).1

theorem position?_of_lastBoundary? {a b : List Char} {offset : ℕ}
    (h : lastBoundary? (a ++ b) (min offset (byteLength (a ++ b))) = some (byteLength a)) :
    (ofText (a ++ b)).position? offset = some (.after a) := by
  have hpos := length_lines_pos a
  obtain ⟨p, ha, hstart⟩ := exists_lastLine a b
  have hslice : slice? (byteLength p) (byteLength a) (a ++ b) = some (lastLine a) := by
    have := slice?_eq_some p (lastLine a) b
    rwa [← ha] at this
  have hline : (lines a).length - 1 + 1 = (lines a).length := by omega
  have htext : (ofText (a ++ b)).text = a ++ b := rfl
  simp only [position?, htext, h, lineAt?_byteLength, hstart, hslice, Option.bind_eq_bind,
    Option.bind_some, Position.after_eq, hline]

/-- The lines by the table are those of the text. -/
theorem lineText?_eq (text : List Char) (n : ℕ) :
    (ofText text).lineText? n = some (if n = 0 then [] else ((lines text)[n - 1]?).getD []) := by
  cases n with
  | zero => rfl
  | succ n =>
    rw [lineText?, lineCount_ofText, if_neg (Nat.succ_ne_zero n), Nat.add_sub_cancel]
    split_ifs with hn
    · rw [List.getElem?_eq_none_iff.mpr hn]
      rfl
    · obtain ⟨line, hline⟩ : ∃ line, (lines text)[n]? = some line :=
        ⟨_, List.getElem?_eq_getElem (Nat.lt_of_not_le hn)⟩
      obtain ⟨a, b, rfl, hstart, hstop⟩ := exists_line 0 hline
      rw [Nat.zero_add] at hstart hstop
      have hstart' : (ofText (a ++ line ++ b)).starts[n]? = some (byteLength a) :=
        List.getElem?_toArray.trans hstart
      have hstop' : (ofText (a ++ line ++ b)).stopOf? n = some (byteLength (a ++ line)) := by
        have hnext : (ofText (a ++ line ++ b)).starts[n + 1]? =
            (startsAfter 0 (a ++ line ++ b))[n]? := List.getElem?_toArray
        rw [stopOf?, hnext]
        rcases hstop with ⟨hnone, rfl⟩ | hsome
        · rw [hnone, ofText, List.append_nil]
        · rw [hsome]
          rfl
      rw [hstart', hstop', hline]
      exact slice?_eq_some a line b

theorem clamp?_eq (text : List Char) (p : Position) :
    (ofText text).clamp? p = some ⟨max 1 (min p.line (lines text).length),
      max 1 (min p.column ((Position.lineText text (max 1 (min p.line (lines text).length))).length
        + 1))⟩ := by
  unfold clamp? Position.lineText
  simp only [lineCount_ofText, lineText?_eq]
  rfl

end LineIndex
end SnippetLint.Text

namespace SnippetLint.Position
open Text

theorem lineText_eq (text : List Char) (n : ℕ) :
    lineText text n = if n = 0 then [] else ((lines text)[n - 1]?).getD [] := by
  rw [lineText, LineIndex.lineText?_eq]
  rfl

theorem clamp_eq (p : Position) (text : List Char) :
    p.clamp text = ⟨max 1 (min p.line (lines text).length),
      max 1 (min p.column ((lineText text (max 1 (min p.line (lines text).length))).length
        + 1))⟩ := by
  rw [clamp, LineIndex.clamp?_eq]
  rfl

/-- An offset is where the last boundary up to it is, and that is found. -/
theorem exists_ofByte_eq (text : List Char) (offset : ℕ) :
    ∃ a b, text = a ++ b ∧
      IsGreatest {b | isBoundary text b = true ∧ b ≤ min offset (byteLength text)} (byteLength a) ∧
      (LineIndex.ofText text).position? offset = some (after a) ∧
      ofByte text offset = after a := by
  obtain ⟨m, hm, hmax⟩ := lastBoundary?_eq_some text (min offset (byteLength text))
  obtain ⟨a, b, rfl, rfl⟩ := isBoundary_iff.mp hmax.1.1
  have hp := LineIndex.position?_of_lastBoundary? hm
  refine ⟨a, b, rfl, hmax, hp, ?_⟩
  rw [ofByte, hp]
  rfl

/-- The offset right after the beginning of a text. -/
theorem ofByte_byteLength (a b : List Char) : ofByte (a ++ b) (byteLength a) = after a := by
  have ha := isBoundary_byteLength a b
  obtain ⟨c, d, hs, hmax, -, hp⟩ := exists_ofByte_eq (a ++ b) (byteLength a)
  have heq : byteLength c = byteLength a := by
    apply Nat.le_antisymm (hmax.1.2.trans (Nat.min_le_left _ _))
    exact hmax.2 ⟨ha, Nat.le_min.mpr ⟨Nat.le_refl _, le_of_isBoundary ha⟩⟩
  rw [hp, append_inj_of_byteLength hs heq.symm]

end SnippetLint.Position
