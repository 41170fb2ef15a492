import Mathlib.Data.Nat.Dist
import Mathlib.Data.Prod.Lex
import SnippetLint.Proofs.Text.LineIndex

/-! The positions that a text has, which hang on the lengths of its lines alone, and their order, in
which the position of an offset grows with the offset. Clamping takes a position to the one that is
nearest to it, and there is only one that is. -/
namespace SnippetLint.Position
open Text

/-- A line has one column past its end. -/
structure IsReal (p : Position) (text : List Char) : Prop where
  line_pos : 1 ≤ p.line
  line_le : p.line ≤ (lines text).length
  column_pos : 1 ≤ p.column
  column_le : p.column ≤ (lineText text p.line).length + 1

theorem lineText_eq_of_getElem? {text line : List Char} {n : ℕ} (hn : 1 ≤ n)
    (h : (lines text)[n - 1]? = some line) : lineText text n = line := by
  rw [lineText_eq, if_neg (by omega), h]
  rfl

theorem length_lineText {text : List Char} {n : ℕ} (hn : 1 ≤ n) :
    (lineText text n).length = (((lines text).map List.length)[n - 1]?).getD 0 := by
  rw [lineText_eq, if_neg (by omega), List.getElem?_map]
  cases (lines text)[n - 1]? <;> rfl

theorem isReal_of_getElem? {text line : List Char} {n column : ℕ} (hn : 1 ≤ n)
    (h : (lines text)[n - 1]? = some line) (hc : 1 ≤ column) (hl : column ≤ line.length + 1) :
    IsReal ⟨n, column⟩ text where
  line_pos := hn
  line_le := by
    have hi := (List.getElem?_eq_some_iff.mp h).1
    show n ≤ _
    omega
  column_pos := hc
  column_le := by
    rw [lineText_eq_of_getElem? hn h]
    exact hl

theorem isReal_of_mem_numbered {text line : List Char} {n column : ℕ}
    (h : (line, n) ∈ numbered text) (hc : 1 ≤ column) (hl : column ≤ line.length + 1) :
    IsReal ⟨n, column⟩ text := by
  obtain ⟨hn, hi⟩ := mem_numbered.mp h
  exact isReal_of_getElem? hn hi hc hl

/-- Texts with lines of the same lengths have the same positions. -/
theorem isReal_congr {a b : List Char}
    (h : (lines a).map List.length = (lines b).map List.length) {p : Position} :
    p.IsReal a ↔ p.IsReal b := by
  have hn : (lines a).length = (lines b).length := by
    simpa only [List.length_map] using congrArg List.length h
  have hc : 1 ≤ p.line → (lineText a p.line).length = (lineText b p.line).length := by
    intro hp
    rw [length_lineText hp, length_lineText hp, h]
  constructor
  · rintro ⟨h₁, h₂, h₃, h₄⟩
    exact ⟨h₁, hn ▸ h₂, h₃, hc h₁ ▸ h₄⟩
  · rintro ⟨h₁, h₂, h₃, h₄⟩
    exact ⟨h₁, hn ▸ h₂, h₃, hc h₁ ▸ h₄⟩

theorem clamp_of_isReal {p : Position} {text : List Char} (h : p.IsReal text) :
    p.clamp text = p := by
  obtain ⟨line, column⟩ := p
  obtain ⟨h₁, h₂, h₃, h₄⟩ := h
  dsimp only at h₁ h₂ h₃ h₄
  have hl : max 1 (min line (lines text).length) = line := by omega
  rw [clamp_eq]
  simp only [hl]
  congr 1
  omega

theorem isReal_clamp (p : Position) (text : List Char) : (p.clamp text).IsReal text := by
  have hp := length_lines_pos text
  rw [clamp_eq]
  constructor
  · exact Nat.le_max_left _ _
  · dsimp only
    omega
  · exact Nat.le_max_left _ _
  · dsimp only
    omega

/-- The position after any beginning of a text. -/
theorem isReal_after (a b : List Char) : (after a).IsReal (a ++ b) := by
  obtain ⟨x, xs, hb⟩ := List.exists_cons_of_ne_nil (lines_ne_nil b)
  have hp := length_lines_pos a
  have hl : (lines (a ++ b))[(lines a).length - 1]? = some (lastLine a ++ x) := by
    have hd : (lines a).dropLast.length = (lines a).length - 1 := List.length_dropLast
    rw [lines_append, ← hd, List.getElem?_append_right (Nat.le_refl _), Nat.sub_self, hb]
    rfl
  rw [after_eq]
  refine isReal_of_getElem? hp hl (by omega) ?_
  rw [List.length_append]
  omega

theorem isReal_first (text : List Char) : first.IsReal text := isReal_after [] text

/-- Any offset has a position that the text has. -/
theorem isReal_ofByte (text : List Char) (offset : ℕ) : (ofByte text offset).IsReal text := by
  obtain ⟨a, b, rfl, -, -, hp⟩ := exists_ofByte_eq text offset
  rw [hp]
  exact isReal_after a b

/-- Lines come first, then columns. -/
def key (p : Position) : ℕ ×ₗ ℕ := toLex (p.line, p.column)

theorem key_injective : Function.Injective key := by
  intro p q h
  cases p
  cases q
  simpa [key] using h

instance : LinearOrder Position := LinearOrder.lift' key key_injective

theorem le_iff {p q : Position} :
    p ≤ q ↔ p.line < q.line ∨ p.line = q.line ∧ p.column ≤ q.column :=
  Prod.Lex.le_iff

theorem le_advance (p : Position) (c : Char) : p ≤ p.advance c := by
  rw [le_iff]
  unfold advance
  split_ifs
  · exact Or.inl (Nat.lt_succ_self _)
  · exact Or.inr ⟨rfl, Nat.le_succ _⟩

theorem le_foldl_advance (p : Position) (text : List Char) : p ≤ text.foldl advance p := by
  induction text generalizing p with
  | nil => exact le_rfl
  | cons c cs ih => exact (le_advance p c).trans (ih _)

/-- A longer beginning of a text ends further on. -/
theorem after_le_after_append (a b : List Char) : after a ≤ after (a ++ b) := by
  have h := le_foldl_advance (after a) b
  rwa [after, ← List.foldl_append] at h

theorem ofByte_mono (text : List Char) : Monotone (ofByte text) := by
  intro m n h
  obtain ⟨a, b, ha, hm, -, hp⟩ := exists_ofByte_eq text m
  obtain ⟨c, d, hc, hn, -, hq⟩ := exists_ofByte_eq text n
  have hle : byteLength a ≤ byteLength c :=
    hn.2 ⟨hm.1.1, hm.1.2.trans (by omega)⟩
  obtain ⟨x, rfl⟩ := prefix_of_byteLength_le (ha.symm.trans hc) hle
  rw [hp, hq]
  exact after_le_after_append a x

/-- How far apart two positions are: by lines first, then by columns. -/
def gap (p q : Position) : ℕ ×ₗ ℕ := toLex (p.line.dist q.line, p.column.dist q.column)

/-- No position of the text is less far from `p` than this one. -/
structure IsNearest (q p : Position) (text : List Char) : Prop where
  isReal : q.IsReal text
  gap_le : ∀ r : Position, r.IsReal text → p.gap q ≤ p.gap r

/-- A number cut to a range is nearer than all else in the range. -/
theorem dist_clamped_lt {n m hi : ℕ} (h₁ : 1 ≤ m) (h₂ : m ≤ hi) (hne : m ≠ max 1 (min n hi)) :
    n.dist (max 1 (min n hi)) < n.dist m := by
  unfold Nat.dist
  omega

theorem gap_clamp_lt (p : Position) {r : Position} {text : List Char} (hr : r.IsReal text)
    (hne : r ≠ p.clamp text) : p.gap (p.clamp text) < p.gap r := by
  obtain ⟨line, column⟩ := r
  obtain ⟨h₁, h₂, h₃, h₄⟩ := hr
  rw [clamp_eq] at hne ⊢
  rw [gap, gap, Prod.Lex.toLex_lt_toLex]
  by_cases hl : line = max 1 (min p.line (lines text).length)
  · subst hl
    have hc : column ≠ max 1 (min p.column
        ((lineText text (max 1 (min p.line (lines text).length))).length + 1)) :=
      fun h => hne (congrArg (Position.mk _) h)
    exact .inr ⟨rfl, dist_clamped_lt h₃ h₄ hc⟩
  · exact .inl (dist_clamped_lt h₁ h₂ hl)

theorem isNearest_iff {p q : Position} {text : List Char} :
    q.IsNearest p text ↔ q = p.clamp text := by
  constructor
  · intro h
    by_contra hne
    exact absurd (h.gap_le _ (isReal_clamp p text)) (gap_clamp_lt p h.isReal hne).not_ge
  · rintro rfl
    refine ⟨isReal_clamp p text, fun r hr => ?_⟩
    by_cases h : r = p.clamp text
    · rw [h]
    · exact (gap_clamp_lt p hr h).le

example : IsNearest ⟨1, 3⟩ ⟨0, UInt64.size - 1⟩ "ab\nc".toList :=
  isNearest_iff.mpr (by decide +kernel)

end SnippetLint.Position
