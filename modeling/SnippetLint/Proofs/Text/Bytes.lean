import Mathlib.Data.List.Basic
import Mathlib.Order.Bounds.Basic
import SnippetLint.Text.LineIndex

/-! Bytes before a character of a text, and cutting a text where its characters start. -/
namespace SnippetLint.Text

theorem byteLength_append (a b : List Char) :
    byteLength (a ++ b) = byteLength a + byteLength b := by
  induction a with
  | nil => simp [byteLength]
  | cons c cs ih => rw [List.cons_append, byteLength, byteLength, ih, Nat.add_assoc]

theorem byteLength_pos {text : List Char} (h : text ≠ []) : 0 < byteLength text := by
  obtain ⟨c, cs, rfl⟩ := List.exists_cons_of_ne_nil h
  have := c.utf8Size_pos
  rw [byteLength]
  omega

/-- A beginning with no more bytes is a beginning of the other. -/
theorem prefix_of_byteLength_le {a b c d : List Char} (h : a ++ b = c ++ d)
    (hl : byteLength a ≤ byteLength c) : a <+: c := by
  rcases List.append_eq_append_iff.mp h with ⟨x, rfl, -⟩ | ⟨x, rfl, -⟩
  · exact List.prefix_append a x
  · have hx : x = [] := by
      by_contra hne
      have := byteLength_pos hne
      rw [byteLength_append] at hl
      omega
    exact ⟨[], by simp [hx]⟩

/-- The bytes of a beginning tell which it is. -/
theorem append_inj_of_byteLength {a b c d : List Char} (h : a ++ b = c ++ d)
    (hl : byteLength a = byteLength c) : a = c :=
  (prefix_of_byteLength_le h hl.le).eq_of_length_le
    (prefix_of_byteLength_le h.symm hl.ge).length_le

/-- Characters further on have more bytes before them. -/
theorem byteLength_take_lt {text : List Char} {i j : ℕ} (hij : i < j) (hi : i < text.length) :
    byteLength (text.take i) < byteLength (text.take j) := by
  have hs : text.take j = text.take i ++ (text.drop i).take (j - i) := by
    rw [← List.take_add, Nat.add_sub_cancel' (Nat.le_of_lt hij)]
  have hn : (text.drop i).take (j - i) ≠ [] := by
    apply List.ne_nil_of_length_pos
    rw [List.length_take, List.length_drop]
    omega
  have := byteLength_pos hn
  rw [hs, byteLength_append]
  omega

theorem isBoundary_zero (text : List Char) : isBoundary text 0 = true := by
  cases text <;> rfl

theorem isBoundary_cons {c : Char} {cs : List Char} {offset : ℕ} (h : 0 < offset) :
    isBoundary (c :: cs) offset = true ↔
      c.utf8Size ≤ offset ∧ isBoundary cs (offset - c.utf8Size) = true := by
  obtain ⟨n, rfl⟩ := Nat.exists_eq_succ_of_ne_zero h.ne'
  simp [isBoundary]

/-- The boundaries are the ends of the beginnings of a text. -/
theorem isBoundary_iff {text : List Char} {offset : ℕ} :
    isBoundary text offset = true ↔ ∃ a b, text = a ++ b ∧ offset = byteLength a := by
  induction text generalizing offset with
  | nil =>
    cases offset with
    | zero => exact iff_of_true rfl ⟨[], [], rfl, rfl⟩
    | succ n =>
      refine iff_of_false Bool.false_ne_true ?_
      rintro ⟨a, b, ht, ho⟩
      rw [(List.append_eq_nil_iff.mp ht.symm).1] at ho
      exact absurd ho (Nat.succ_ne_zero n)
  | cons c cs ih =>
    rcases Nat.eq_zero_or_pos offset with rfl | hpos
    · exact iff_of_true (isBoundary_zero _) ⟨[], c :: cs, rfl, rfl⟩
    rw [isBoundary_cons hpos, ih]
    constructor
    · rintro ⟨hle, a, b, rfl, ho⟩
      exact ⟨c :: a, b, rfl, by rw [byteLength]; omega⟩
    · rintro ⟨a, b, ht, rfl⟩
      rcases List.cons_eq_append_iff.mp ht with ⟨rfl, -⟩ | ⟨a, rfl, rfl⟩
      · exact absurd hpos (Nat.lt_irrefl 0)
      · rw [byteLength]
        exact ⟨Nat.le_add_right _ _, a, b, rfl, Nat.add_sub_cancel_left _ _⟩

theorem isBoundary_byteLength (a b : List Char) : isBoundary (a ++ b) (byteLength a) = true :=
  isBoundary_iff.mpr ⟨a, b, rfl, rfl⟩

theorem le_of_isBoundary {text : List Char} {offset : ℕ} (h : isBoundary text offset = true) :
    offset ≤ byteLength text := by
  obtain ⟨a, b, rfl, rfl⟩ := isBoundary_iff.mp h
  rw [byteLength_append]
  exact Nat.le_add_right _ _

theorem byteSlice_zero (text : List Char) : byteSlice 0 0 text = [] := by
  induction text with
  | nil => rfl
  | cons c cs ih => simpa [byteSlice] using ih

theorem byteSlice_append_left (a b : List Char) : byteSlice 0 (byteLength a) (a ++ b) = a := by
  induction a with
  | nil => exact byteSlice_zero b
  | cons c cs ih =>
    have hc := c.utf8Size_pos.ne'
    simp [byteSlice, byteLength, ih, hc]

theorem byteSlice_append_right (a b : List Char) (m n : ℕ) :
    byteSlice (byteLength a + m) (byteLength a + n) (a ++ b) = byteSlice m n b := by
  induction a with
  | nil => simp [byteLength]
  | cons c cs ih =>
    have hc := c.utf8Size_pos.ne'
    have hm : c.utf8Size + byteLength cs + m - c.utf8Size = byteLength cs + m := by omega
    have hn : c.utf8Size + byteLength cs + n - c.utf8Size = byteLength cs + n := by omega
    rw [List.cons_append, byteSlice, byteLength, hm, hn, ih]
    simp [hc]

/-- What stands between two boundaries is cut out. -/
theorem slice?_eq_some (a b c : List Char) :
    slice? (byteLength a) (byteLength (a ++ b)) (a ++ b ++ c) = some b := by
  have hstart : isBoundary (a ++ b ++ c) (byteLength a) = true := by
    rw [List.append_assoc]
    exact isBoundary_byteLength a (b ++ c)
  have hle : byteLength a ≤ byteLength (a ++ b) := by
    rw [byteLength_append]
    exact Nat.le_add_right _ _
  have hslice : byteSlice (byteLength a) (byteLength (a ++ b)) (a ++ b ++ c) = b := by
    rw [byteLength_append, List.append_assoc]
    exact (byteSlice_append_right a (b ++ c) 0 _).trans (byteSlice_append_left b c)
  unfold slice?
  rw [hstart, isBoundary_byteLength, decide_eq_true hle, hslice]
  rfl

/-- The way back from any offset ends, at the text's start at the latest. -/
theorem lastBoundary?_eq_some (text : List Char) (offset : ℕ) :
    ∃ b, lastBoundary? text offset = some b ∧
      IsGreatest {b | isBoundary text b = true ∧ b ≤ offset} b := by
  induction offset with
  | zero =>
    refine ⟨0, by simp [lastBoundary?, isBoundary_zero], ⟨isBoundary_zero text, le_rfl⟩, ?_⟩
    rintro b ⟨-, hb⟩
    exact hb
  | succ n ih =>
    rw [lastBoundary?]
    by_cases h : isBoundary text (n + 1) = true
    · rw [if_pos h]
      exact ⟨n + 1, rfl, ⟨h, le_rfl⟩, fun b hb => hb.2⟩
    · rw [if_neg h]
      obtain ⟨b, hb, hmem, hmax⟩ := ih
      refine ⟨b, hb, ⟨hmem.1, Nat.le_succ_of_le hmem.2⟩, ?_⟩
      rintro a ⟨ha, hle⟩
      have hne : a ≠ n + 1 := by
        rintro rfl
        exact h ha
      exact hmax ⟨ha, by omega⟩

end SnippetLint.Text
