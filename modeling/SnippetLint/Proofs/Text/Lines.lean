import Mathlib.Data.List.Basic
import Mathlib.Data.List.Induction
import SnippetLint.Text.Position

/-! How the lines of a text grow with it, and positions as numbers of lines and of characters
on the last of them. -/
namespace SnippetLint.Text

@[simp] theorem lines_nil : lines [] = [[]] := rfl

theorem lines_cons (c : Char) (cs : List Char) :
    lines (c :: cs) = if c = '\n' then [] :: lines cs else (lines cs).modifyHead (c :: ·) := by
  rw [lines, List.splitOn_cons_eq_if_modifyHead]
  simp only [beq_iff_eq, lines]

@[simp] theorem lines_ne_nil (text : List Char) : lines text ≠ [] :=
  List.splitOn_ne_nil _ _

theorem length_lines_pos (text : List Char) : 0 < (lines text).length :=
  List.length_pos_iff.mpr (lines_ne_nil text)

/-- What stands after the last line feed. -/
def lastLine (text : List Char) : List Char := (lines text).getLast (lines_ne_nil text)

/-- A text that goes on goes on with its last line. -/
theorem lines_append (a b : List Char) :
    lines (a ++ b) = (lines a).dropLast ++ (lines b).modifyHead (lastLine a ++ ·) := by
  obtain ⟨x, xs, hb⟩ := List.exists_cons_of_ne_nil (lines_ne_nil b)
  induction a with
  | nil => simp [lastLine, hb]
  | cons c cs ih =>
    obtain ⟨y, ys, hc⟩ := List.exists_cons_of_ne_nil (lines_ne_nil cs)
    rw [List.cons_append, lines_cons, ih]
    unfold lastLine
    by_cases hn : c = '\n'
    · subst hn
      have hl : lines ('\n' :: cs) = [] :: y :: ys := by rw [lines_cons, if_pos rfl, hc]
      simp [hl, hc, hb]
    · have hl : lines (c :: cs) = (c :: y) :: ys := by rw [lines_cons, if_neg hn, hc]; rfl
      cases ys with
      | nil => simp [hl, hn, hc, hb]
      | cons z zs => simp [hl, hn, hc, hb]

/-- The line that goes on from one part of the text into the other. -/
theorem exists_lines_append (a b : List Char) : ∃ x xs, lines b = x :: xs ∧
    lines (a ++ b) = (lines a).dropLast ++ (lastLine a ++ x) :: xs := by
  obtain ⟨x, xs, hb⟩ := List.exists_cons_of_ne_nil (lines_ne_nil b)
  refine ⟨x, xs, hb, ?_⟩
  rw [lines_append, hb, List.modifyHead_cons]

theorem lines_append_lineFeed (text : List Char) :
    lines (text ++ ['\n']) = lines text ++ [[]] := by
  have hs : lines ['\n'] = [[], []] := rfl
  rw [lines_append, hs, List.modifyHead_cons, List.append_nil, ← List.singleton_append,
    ← List.append_assoc]
  congr 1
  exact List.dropLast_append_getLast (lines_ne_nil text)

theorem lines_append_of_ne {text : List Char} {c : Char} (hc : c ≠ '\n') :
    lines (text ++ [c]) = (lines text).dropLast ++ [lastLine text ++ [c]] := by
  have hs : lines [c] = [[c]] := by
    rw [lines_cons, if_neg hc]
    rfl
  rw [lines_append, hs, List.modifyHead_cons]

theorem lastLine_append_lineFeed (text : List Char) : lastLine (text ++ ['\n']) = [] := by
  simp [lastLine, lines_append_lineFeed]

theorem lastLine_append_of_ne {text : List Char} {c : Char} (hc : c ≠ '\n') :
    lastLine (text ++ [c]) = lastLine text ++ [c] := by
  simp [lastLine, lines_append_of_ne hc]

theorem getLast?_lastLine {text : List Char} (h : lastLine text ≠ []) :
    (lastLine text).getLast? = text.getLast? := by
  induction text using List.reverseRecOn with
  | nil => exact absurd rfl h
  | append_singleton cs c =>
    by_cases hc : c = '\n'
    · subst hc
      exact absurd (lastLine_append_lineFeed cs) h
    · rw [lastLine_append_of_ne hc, List.getLast?_concat, List.getLast?_concat]

/-- Lines keep their lengths where no line feed comes or goes. -/
theorem length_lines_mapIdx {f : ℕ → Char → Char} (hf : ∀ i c, f i c = '\n' ↔ c = '\n')
    (text : List Char) :
    (lines (text.mapIdx f)).map List.length = (lines text).map List.length := by
  induction text generalizing f with
  | nil => rfl
  | cons c cs ih =>
    have hr := ih fun i => hf (i + 1)
    obtain ⟨x, xs, hx⟩ := List.exists_cons_of_ne_nil (lines_ne_nil cs)
    obtain ⟨y, ys, hy⟩ :=
      List.exists_cons_of_ne_nil (lines_ne_nil (cs.mapIdx fun i => f (i + 1)))
    rw [List.mapIdx_cons, lines_cons, lines_cons]
    by_cases hc : c = '\n'
    · rw [if_pos hc, if_pos ((hf 0 c).mpr hc), List.map_cons, List.map_cons, hr]
    · rw [hx, hy, List.map_cons, List.map_cons] at hr
      rw [if_neg hc, if_neg fun h => hc ((hf 0 c).mp h), hx, hy]
      simpa using hr

/-- The first line goes up to the first line feed. -/
theorem takeWhile_of_lines {text x : List Char} {xs : List (List Char)} (h : lines text = x :: xs) :
    text.takeWhile (· != '\n') = x := by
  induction text generalizing x xs with
  | nil => exact (List.cons.inj h).1
  | cons c cs ih =>
    obtain ⟨y, ys, hc⟩ := List.exists_cons_of_ne_nil (lines_ne_nil cs)
    rw [lines_cons] at h
    by_cases hn : c = '\n'
    · rw [if_pos hn] at h
      rw [hn, ← (List.cons.inj h).1]
      rfl
    · rw [if_neg hn, hc, List.modifyHead_cons] at h
      rw [← (List.cons.inj h).1, List.takeWhile_cons, if_pos (bne_iff_ne.mpr hn), ih hc]

/-- The first member of a list, or one after it. -/
theorem exists_append_cons_iff {α : Type} {P : List α → α → Prop} {a : α} {l : List α} :
    (∃ before x after, a :: l = before ++ x :: after ∧ P before x) ↔
      P [] a ∨ ∃ before x after, l = before ++ x :: after ∧ P (a :: before) x := by
  constructor
  · rintro ⟨_ | ⟨b, before⟩, x, after, hl, hp⟩
    · obtain ⟨rfl, rfl⟩ := List.cons.inj hl
      exact .inl hp
    · obtain ⟨rfl, rfl⟩ := List.cons.inj hl
      exact .inr ⟨before, x, after, rfl, hp⟩
  · rintro (hp | ⟨before, x, after, rfl, hp⟩)
    · exact ⟨[], a, l, rfl, hp⟩
    · exact ⟨a :: before, x, after, rfl, hp⟩

/-- Numbers of lines count from 1. -/
theorem mem_numbered {text line : List Char} {n : ℕ} :
    (line, n) ∈ numbered text ↔ 1 ≤ n ∧ (lines text)[n - 1]? = some line := by
  rw [numbered, List.mk_mem_zipIdx_iff_le_and_getElem?_sub]

theorem mem_numbered_iff_append {text line : List Char} {n : ℕ} :
    (line, n) ∈ numbered text ↔ ∃ xs ys, lines text = xs ++ line :: ys ∧ n = xs.length + 1 := by
  rw [mem_numbered]
  constructor
  · rintro ⟨hn, hline⟩
    obtain ⟨hi, rfl⟩ := List.getElem?_eq_some_iff.mp hline
    refine ⟨(lines text).take (n - 1), (lines text).drop (n - 1 + 1), ?_, ?_⟩
    · rw [List.getElem_cons_drop, List.take_append_drop]
    · rw [List.length_take, Nat.min_eq_left (Nat.le_of_lt hi), Nat.sub_add_cancel hn]
  · rintro ⟨xs, ys, hs, rfl⟩
    refine ⟨Nat.succ_pos _, ?_⟩
    rw [hs, Nat.add_sub_cancel, List.getElem?_append_right (Nat.le_refl _), Nat.sub_self]
    rfl

/-- The lines of a part of the list are those with the numbers of that part. -/
theorem mem_between_iff {text line : List Char} {xs ys zs : List (List Char)}
    (h : lines text = xs ++ (ys ++ zs)) :
    line ∈ ys ↔ ∃ n, (line, n) ∈ numbered text ∧ xs.length < n ∧ n ≤ xs.length + ys.length := by
  simp only [mem_numbered, h]
  constructor
  · intro hm
    obtain ⟨i, hi, rfl⟩ := List.getElem_of_mem hm
    refine ⟨xs.length + i + 1, ⟨Nat.succ_pos _, ?_⟩, by omega, by omega⟩
    rw [Nat.add_sub_cancel, List.getElem?_append_right (Nat.le_add_right _ i),
      Nat.add_sub_cancel_left, List.getElem?_append_left hi, List.getElem?_eq_getElem hi]
  · rintro ⟨n, ⟨-, hn⟩, hlo, hhi⟩
    rw [List.getElem?_append_right (by omega), List.getElem?_append_left (by omega)] at hn
    exact List.mem_of_getElem? hn

theorem mem_before_iff {text line : List Char} {before after : List (List Char)}
    (h : lines text = before ++ after) :
    line ∈ before ↔ ∃ n, (line, n) ∈ numbered text ∧ n ≤ before.length := by
  have hlines : lines text = [] ++ (before ++ after) := h
  rw [mem_between_iff hlines, List.length_nil, Nat.zero_add]
  refine exists_congr fun n => ⟨fun hn => ⟨hn.1, hn.2.2⟩, fun hn => ⟨hn.1, ?_, hn.2⟩⟩
  exact (mem_numbered.mp hn.1).1

theorem pairwise_numbered (text : List Char) : (numbered text).Pairwise fun a b => a.2 < b.2 := by
  have hnumbers : ((numbered text).map Prod.snd).Pairwise (· < ·) := by
    rw [numbered, List.zipIdx_map_snd]
    exact List.pairwise_lt_range' 1
  exact List.pairwise_map.mp hnumbers

/-- The first line that `p` holds of. -/
theorem find?_numbered_eq_some_iff {p : List Char → Bool} {text line : List Char} {n : ℕ} :
    (numbered text).find? (fun x => p x.1) = some (line, n) ↔
      (line, n) ∈ numbered text ∧ p line = true ∧
        ∀ earlier k, (earlier, k) ∈ numbered text → k < n → p earlier = false := by
  have hsorted := pairwise_numbered text
  rw [List.find?_eq_some_iff_append]
  constructor
  · rintro ⟨hp, before, after, heq, hall⟩
    rw [heq, List.pairwise_append] at hsorted
    obtain ⟨-, hafter, -⟩ := hsorted
    rw [heq]
    refine ⟨List.mem_append_right _ List.mem_cons_self, hp, fun earlier k hm hlt => ?_⟩
    rcases List.mem_append.mp hm with hm | hm
    · simpa using hall _ hm
    · rcases List.mem_cons.mp hm with hm | hm
      · rw [(Prod.mk.inj hm).2] at hlt
        exact absurd hlt (Nat.lt_irrefl n)
      · have hgt : n < k := (List.pairwise_cons.mp hafter).1 _ hm
        exact absurd hlt (Nat.lt_asymm hgt)
  · rintro ⟨hline, hp, hfirst⟩
    obtain ⟨before, after, heq⟩ := List.append_of_mem hline
    refine ⟨hp, before, after, heq, fun x hx => ?_⟩
    rw [heq, List.pairwise_append] at hsorted
    have hlt : x.2 < n := hsorted.2.2 x hx _ List.mem_cons_self
    rw [hfirst x.1 x.2 (heq ▸ List.mem_append_left _ hx) hlt]
    rfl

end SnippetLint.Text

namespace SnippetLint.Position
open Text

theorem after_append_singleton (text : List Char) (c : Char) :
    after (text ++ [c]) = (after text).advance c := by
  rw [after, List.foldl_append]
  rfl

/-- The position after a text is told by its last line. -/
theorem after_eq (text : List Char) :
    after text = ⟨(lines text).length, (lastLine text).length + 1⟩ := by
  induction text using List.reverseRecOn with
  | nil => rfl
  | append_singleton cs c ih =>
    have hp := length_lines_pos cs
    rw [after_append_singleton, ih, advance]
    by_cases hc : c = '\n'
    · subst hc
      rw [if_pos rfl, lines_append_lineFeed, lastLine_append_lineFeed, List.length_append]
      rfl
    · rw [if_neg hc, lines_append_of_ne hc, lastLine_append_of_ne hc, List.length_append,
        List.length_append, List.length_dropLast, List.length_singleton, List.length_singleton]
      congr 1
      exact (Nat.sub_add_cancel hp).symm

/-- Texts with lines of the same lengths end at the same position. -/
theorem after_congr {a b : List Char}
    (h : (lines a).map List.length = (lines b).map List.length) : after a = after b := by
  have hn := congrArg List.length h
  have hl := congrArg List.getLast? h
  rw [List.length_map, List.length_map] at hn
  rw [List.getLast?_map, List.getLast?_map, List.getLast?_eq_some_getLast (lines_ne_nil a),
    List.getLast?_eq_some_getLast (lines_ne_nil b)] at hl
  have hlast : (lastLine a).length = (lastLine b).length := Option.some.inj hl
  rw [after_eq, after_eq, hn, hlast]

theorem after_of_lineFeed_not_mem {text : List Char} (h : '\n' ∉ text) :
    after text = ⟨1, text.length + 1⟩ := by
  induction text using List.reverseRecOn with
  | nil => rfl
  | append_singleton cs c ih =>
    rw [List.mem_append, List.mem_singleton, not_or] at h
    rw [after_append_singleton, ih h.1, advance, if_neg (Ne.symm h.2), List.length_append]
    rfl

end SnippetLint.Position
