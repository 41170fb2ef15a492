import Mathlib.Data.Set.Function
import SnippetLint.Proofs.Text.RealPosition

/-! Offsets and positions: the places where a character starts or the text ends are, in their
order, the positions that the text has. A character more, put in at one of them, makes one line
longer and leaves the others as they are. -/
namespace SnippetLint.Position
open Text

theorem lt_advance (p : Position) (c : Char) : p < p.advance c := by
  refine lt_of_le_of_ne (le_advance p c) fun h => ?_
  have hl := congrArg line h
  have hc := congrArg column h
  unfold advance at hl hc
  split_ifs at hl hc
  · exact absurd hl (Nat.lt_succ_self _).ne
  · exact absurd hc (Nat.lt_succ_self _).ne

theorem after_lt_after_append (a : List Char) {b : List Char} (h : b ≠ []) :
    after a < after (a ++ b) := by
  obtain ⟨c, cs, rfl⟩ := List.exists_cons_of_ne_nil h
  have hlt := lt_advance (after a) c
  rw [← after_append_singleton] at hlt
  have hle := after_le_after_append (a ++ [c]) cs
  rw [List.append_assoc] at hle
  exact hlt.trans_le hle

/-- The position after a beginning of a text tells which beginning it is. -/
theorem after_inj {a b c d : List Char} (h : a ++ b = c ++ d) (hp : after a = after c) : a = c := by
  rcases List.append_eq_append_iff.mp h with ⟨x, rfl, -⟩ | ⟨x, rfl, -⟩
  · by_contra hne
    have hx : x ≠ [] := fun hx => hne (by rw [hx, List.append_nil])
    exact (after_lt_after_append a hx).ne hp
  · by_contra hne
    have hx : x ≠ [] := fun hx => hne (by rw [hx, List.append_nil])
    exact (after_lt_after_append c hx).ne hp.symm

theorem lineText_append_lineFeed {text : List Char} {n : ℕ} (h : n ≤ (lines text).length) :
    lineText (text ++ ['\n']) n = lineText text n := by
  rw [lineText_eq, lineText_eq, lines_append_lineFeed]
  split_ifs with hn
  · rfl
  · rw [List.getElem?_append_left (by omega)]

theorem lineText_append_of_lt {text : List Char} {c : Char} (hc : c ≠ '\n') {n : ℕ}
    (h : n < (lines text).length) : lineText (text ++ [c]) n = lineText text n := by
  rw [lineText_eq, lineText_eq, lines_append_of_ne hc]
  split_ifs with hn
  · rfl
  · rw [List.getElem?_append_left (by rw [List.length_dropLast]; omega), List.getElem?_dropLast,
      if_pos (by omega)]

theorem lineText_length_lines (text : List Char) :
    lineText text (lines text).length = lastLine text := by
  have hpos := length_lines_pos text
  rw [lineText_eq, if_neg (by omega), ← List.getLast?_eq_getElem?,
    List.getLast?_eq_some_getLast (lines_ne_nil text)]
  rfl

/-- One more character gives one more position. -/
theorem isReal_append_singleton {text : List Char} {c : Char} {p : Position}
    (h : p.IsReal (text ++ [c])) : p.IsReal text ∨ p = after (text ++ [c]) := by
  obtain ⟨line, column⟩ := p
  obtain ⟨h₁, h₂, h₃, h₄⟩ := h
  dsimp only at h₁ h₂ h₃ h₄
  have hpos := length_lines_pos text
  rw [after_append_singleton, after_eq]
  by_cases hc : c = '\n'
  · subst hc
    rw [lines_append_lineFeed, List.length_append, List.length_singleton] at h₂
    rcases Nat.lt_or_ge (lines text).length line with hl | hl
    · have hline : line = (lines (text ++ ['\n'])).length := by
        rw [lines_append_lineFeed, List.length_append, List.length_singleton]
        omega
      rw [hline, lineText_length_lines, lastLine_append_lineFeed, List.length_nil] at h₄
      have hcolumn : column = 1 := Nat.le_antisymm h₄ h₃
      right
      rw [hline, hcolumn, lines_append_lineFeed, List.length_append]
      rfl
    · rw [lineText_append_lineFeed hl] at h₄
      exact Or.inl ⟨h₁, hl, h₃, h₄⟩
  · have hlength : (lines (text ++ [c])).length = (lines text).length := by
      rw [lines_append_of_ne hc, List.length_append, List.length_dropLast, List.length_singleton]
      omega
    rw [hlength] at h₂
    rcases Nat.lt_or_eq_of_le h₂ with hl | rfl
    · rw [lineText_append_of_lt hc hl] at h₄
      exact Or.inl ⟨h₁, h₂, h₃, h₄⟩
    · rw [← hlength, lineText_length_lines, lastLine_append_of_ne hc, List.length_append,
        List.length_singleton] at h₄
      rcases Nat.lt_or_ge ((lastLine text).length + 1) column with hk | hk
      · have hcolumn : column = (lastLine text).length + 1 + 1 := Nat.le_antisymm h₄ hk
        right
        rw [hcolumn, advance, if_neg hc]
      · refine Or.inl ⟨h₁, h₂, h₃, ?_⟩
        rwa [lineText_length_lines]

/-- Every position that the text has is reached by reading on from its start. -/
theorem IsReal.exists_after_eq {text : List Char} {p : Position} (h : p.IsReal text) :
    ∃ a b, text = a ++ b ∧ after a = p := by
  induction text using List.reverseRecOn with
  | nil =>
    obtain ⟨line, column⟩ := p
    obtain ⟨h₁, h₂, h₃, h₄⟩ := h
    dsimp only at h₁ h₂ h₃ h₄
    have hline : line = 1 := Nat.le_antisymm h₂ h₁
    subst hline
    have hcolumn : column = 1 := Nat.le_antisymm h₄ h₃
    subst hcolumn
    exact ⟨[], [], rfl, rfl⟩
  | append_singleton cs c ih =>
    rcases isReal_append_singleton h with h | rfl
    · obtain ⟨a, b, rfl, hp⟩ := ih h
      exact ⟨a, b ++ [c], List.append_assoc _ _ _, hp⟩
    · exact ⟨cs ++ [c], [], (List.append_nil _).symm, rfl⟩

/-- A text is cut where one of its lines is. -/
theorem exists_append_of_lines {text u v : List Char} {xs ys : List (List Char)}
    (h : lines text = xs ++ (u ++ v) :: ys) :
    ∃ a b, text = a ++ b ∧ lines a = xs ++ [u] ∧ lines b = v :: ys := by
  have hreal : IsReal ⟨xs.length + 1, u.length + 1⟩ text :=
    isReal_of_mem_numbered (mem_numbered_iff_append.mpr ⟨xs, ys, h, rfl⟩) (Nat.succ_pos _) (by simp)
  obtain ⟨a, b, rfl, ha⟩ := hreal.exists_after_eq
  obtain ⟨x, zs, hb, hab⟩ := exists_lines_append a b
  rw [after_eq, Position.mk.injEq] at ha
  have hlength : (lines a).dropLast.length = xs.length := by rw [List.length_dropLast, ha.1]; rfl
  have hcut := List.append_inj (hab.symm.trans h) hlength
  have hlast := List.append_inj (List.cons.inj hcut.2).1 (Nat.succ.inj ha.2)
  refine ⟨a, b, rfl, ?_, ?_⟩
  · rw [← hcut.1, ← hlast.1]
    exact (List.dropLast_append_getLast (lines_ne_nil a)).symm
  · rw [hb, hlast.2, (List.cons.inj hcut.2).2]

theorem strictMonoOn_ofByte (text : List Char) :
    StrictMonoOn (ofByte text) {b | isBoundary text b = true} := by
  intro m hm n hn h
  obtain ⟨a, b, ha, rfl⟩ := isBoundary_iff.mp hm
  obtain ⟨c, d, hc, rfl⟩ := isBoundary_iff.mp hn
  obtain ⟨x, rfl⟩ := prefix_of_byteLength_le (ha.symm.trans hc) h.le
  have hx : x ≠ [] := by
    rintro rfl
    rw [List.append_nil] at h
    exact absurd h (Nat.lt_irrefl _)
  have hl : ofByte text (byteLength a) = after a := by
    rw [ha]
    exact ofByte_byteLength a b
  have hr : ofByte text (byteLength (a ++ x)) = after (a ++ x) := by
    rw [hc]
    exact ofByte_byteLength (a ++ x) d
  rw [hl, hr]
  exact after_lt_after_append a hx

theorem bijOn_ofByte (text : List Char) :
    Set.BijOn (ofByte text) {b | isBoundary text b = true} {p | p.IsReal text} := by
  refine ⟨fun b _ => isReal_ofByte text b, (strictMonoOn_ofByte text).injOn, ?_⟩
  intro p hp
  obtain ⟨a, b, rfl, rfl⟩ := IsReal.exists_after_eq hp
  exact ⟨byteLength a, isBoundary_byteLength a b, ofByte_byteLength a b⟩

/-- An offset that is no boundary stands for the last one before it. -/
theorem exists_boundary_eq (text : List Char) (offset : ℕ) :
    ∃ b, IsGreatest {b | isBoundary text b = true ∧ b ≤ min offset (byteLength text)} b ∧
      (LineIndex.ofText text).position? offset = some (ofByte text b) := by
  obtain ⟨a, b, rfl, hmax, hp, -⟩ := exists_ofByte_eq text offset
  refine ⟨byteLength a, hmax, ?_⟩
  rw [hp, ofByte_byteLength]

theorem map_lineText (text : List Char) :
    (List.range (lines text).length).map (fun i => lineText text (i + 1)) = lines text := by
  apply List.ext_getElem
  · simp
  · intro i hi hj
    rw [List.getElem_map, List.getElem_range, lineText_eq, if_neg (Nat.succ_ne_zero i),
      Nat.add_sub_cancel, List.getElem?_eq_getElem hj]
    rfl

theorem clamp_eq_self_iff {p : Position} {text : List Char} : p.clamp text = p ↔ p.IsReal text := by
  constructor
  · intro h
    rw [← h]
    exact isReal_clamp p text
  · exact clamp_of_isReal

/-- The positions of a text are its boundaries in another form: in the same order, each one once.
Any other offset has the position of the last boundary up to it, and no offset and no line is
without an answer. The lines by number are the lines of the text, which put together with line
feeds are the text again. -/
theorem offsets_and_positions (text : List Char) :
    StrictMonoOn (ofByte text) {b | isBoundary text b = true} ∧
    Set.BijOn (ofByte text) {b | isBoundary text b = true} {p | p.IsReal text} ∧
    (∀ offset, ∃ b,
      IsGreatest {b | isBoundary text b = true ∧ b ≤ min offset (byteLength text)} b ∧
        (LineIndex.ofText text).position? offset = some (ofByte text b)) ∧
    (LineIndex.ofText text).lineCount = (lines text).length ∧
    (∀ n, (LineIndex.ofText text).lineText? n =
      some (if n = 0 then [] else ((lines text)[n - 1]?).getD [])) ∧
    ['\n'].intercalate ((List.range (LineIndex.ofText text).lineCount).map
      fun i => lineText text (i + 1)) = text ∧
    (∀ p : Position, (LineIndex.ofText text).clamp? p = some (p.clamp text)) ∧
    ∀ p : Position, p.clamp text = p ↔ p.IsReal text := by
  refine ⟨strictMonoOn_ofByte text, bijOn_ofByte text, exists_boundary_eq text,
    LineIndex.lineCount_ofText text, LineIndex.lineText?_eq text, ?_, ?_,
    fun p => clamp_eq_self_iff⟩
  · rw [LineIndex.lineCount_ofText, map_lineText]
    exact List.intercalate_splitOn '\n'
  · intro p
    rw [LineIndex.clamp?_eq, clamp_eq]

end SnippetLint.Position

namespace SnippetLint.Text

/-- The text with `c` put in at the position. -/
def insertAt (c : Char) (text : List Char) (p : Position) : List Char :=
  ['\n'].intercalate ((lines text).modify (p.line - 1) fun line =>
    line.take (p.column - 1) ++ c :: line.drop (p.column - 1))

theorem lines_append_cons {a b : List Char} {x : List Char} {xs : List (List Char)}
    (hb : lines b = x :: xs) {c : Char} (hc : c ≠ '\n') :
    lines (a ++ c :: b) = (lines a).dropLast ++ (lastLine a ++ c :: x) :: xs := by
  rw [lines_append, lines_cons, if_neg hc, hb, List.modifyHead_cons, List.modifyHead_cons]

theorem modify_length_append {α : Type} (f : α → α) (xs ys : List α) (y : α) :
    (xs ++ y :: ys).modify xs.length f = xs ++ f y :: ys := by
  induction xs with
  | nil => rfl
  | cons x xs ih => rw [List.cons_append, List.length_cons, List.modify_succ_cons, ih,
      List.cons_append]

theorem insertAt_after {c : Char} (hc : c ≠ '\n') (a b : List Char) :
    insertAt c (a ++ b) (.after a) = a ++ c :: b := by
  obtain ⟨x, xs, hb, hab⟩ := exists_lines_append a b
  have hlines := lines_append_cons (a := a) hb hc
  have hline : (lines a).length - 1 = (lines a).dropLast.length := List.length_dropLast.symm
  rw [insertAt, Position.after_eq, hab]
  dsimp only
  rw [Nat.add_sub_cancel, hline, modify_length_append, List.take_left, List.drop_left, ← hlines]
  exact List.intercalate_splitOn '\n'

theorem not_mem_insertAt {c k : Char} (hc : c ≠ '\n') (hne : k ≠ c) {text : List Char}
    (h : k ∉ text) {p : Position} (hp : p.IsReal text) : k ∉ insertAt c text p := by
  obtain ⟨a, b, rfl, rfl⟩ := hp.exists_after_eq
  rw [List.mem_append, not_or] at h
  rw [insertAt_after hc, List.mem_append, List.mem_cons]
  rintro (ha | hk | hb)
  · exact h.1 ha
  · exact hne hk
  · exact h.2 hb

end SnippetLint.Text
