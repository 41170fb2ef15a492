import Mathlib.Data.List.Forall2
import SnippetLint.Proofs.Text.Lines
import SnippetLint.Text.Search

/-! Texts that differ in nothing but blanks at the ends of their lines, as a text does from the
same text with the line ends of another system. -/
namespace SnippetLint.Text

/-- The text with a carriage return before each line feed. -/
def crlf (text : List Char) : List Char :=
  text.flatMap fun c => if c = '\n' then ['\r', '\n'] else [c]

@[simp] theorem crlf_nil : crlf [] = [] := rfl

@[simp] theorem crlf_lineFeed (text : List Char) :
    crlf ('\n' :: text) = '\r' :: '\n' :: crlf text := rfl

theorem crlf_cons {c : Char} (h : c ≠ '\n') (text : List Char) :
    crlf (c :: text) = c :: crlf text := by
  simp [crlf, h]

theorem crlf_append (a b : List Char) : crlf (a ++ b) = crlf a ++ crlf b := List.flatMap_append

theorem crlf_of_not_mem {text : List Char} (h : '\n' ∉ text) : crlf text = text := by
  induction text with
  | nil => rfl
  | cons c cs ih =>
    rw [List.mem_cons, not_or] at h
    rw [crlf_cons (Ne.symm h.1), ih h.2]

/-- What a line may have more of at its end. Masking makes a space of a carriage return. -/
def isPad (c : Char) : Bool := c == ' ' || c == '\r'

/-- What the lines of two texts may differ in, and what ends a line. -/
def isGap (c : Char) : Bool := isPad c || c == '\n'

theorem isGap_of_isPad {c : Char} (h : isPad c) : isGap c := by simp [isGap, h]

theorem isGap_lineFeed : isGap '\n' := rfl

theorem ne_lineFeed_of_isPad {c : Char} (h : isPad c) : c ≠ '\n' := by
  rintro rfl
  exact absurd h (by decide)

theorem eq_of_isGap {c : Char} (h : isGap c) : c = ' ' ∨ c = '\r' ∨ c = '\n' := by
  simpa [isGap, isPad, or_assoc] using h

theorem forall_isGap {p : Char → Bool} {v : Bool} (h : p ' ' = v ∧ p '\r' = v ∧ p '\n' = v) :
    ∀ c, isGap c → p c = v := by
  intro c hc
  obtain ⟨hspace, hreturn, hlineFeed⟩ := h
  rcases eq_of_isGap hc with rfl | rfl | rfl
  · exact hspace
  · exact hreturn
  · exact hlineFeed

theorem isBlank_of_isGap {c : Char} (h : isGap c) : isBlank c :=
  forall_isGap (p := isBlank) (by decide) c h

/-- The number of characters that are no gaps. -/
def weight (text : List Char) : ℕ := text.countP (!isGap ·)

/-- The end of a text, or a line feed, comes next. -/
def AtLineEnd (text : List Char) : Prop := ∀ c ∈ text.head?, c = '\n'

theorem atLineEnd_nil : AtLineEnd [] := fun _ h => absurd h (Option.not_mem_none _)

theorem atLineEnd_cons {c : Char} {text : List Char} : AtLineEnd (c :: text) ↔ c = '\n' := by
  simp [AtLineEnd]

/-- The second text is the first with more pads at the ends of lines. Only where `multi` is true
can there be more lines than one. -/
inductive Padded (multi : Bool) : List Char → List Char → Prop
  | nil : Padded multi [] []
  | cons {c : Char} {a b : List Char} (hc : c = '\n' → multi) (h : Padded multi a b) :
      Padded multi (c :: a) (c :: b)
  | pad {e : Char} {a b : List Char} (he : isPad e) (ha : AtLineEnd a) (h : Padded multi a b) :
      Padded multi a (e :: b)

variable {multi : Bool} {a b : List Char}

theorem padded_crlf (text : List Char) : Padded true text (crlf text) := by
  induction text with
  | nil => exact .nil
  | cons c cs ih =>
    by_cases hc : c = '\n'
    · subst hc
      exact .pad rfl (atLineEnd_cons.mpr rfl) (.cons (fun _ => rfl) ih)
    · rw [crlf_cons hc]
      exact .cons (fun _ => rfl) ih

namespace Padded

theorem append_left (h : Padded true a b) (text : List Char) :
    Padded true (text ++ a) (text ++ b) := by
  induction text with
  | nil => exact h
  | cons c cs ih => exact .cons (fun _ => rfl) ih

theorem pads {pads : List Char} (hp : ∀ e ∈ pads, isPad e) (ha : AtLineEnd a)
    (h : Padded multi a b) : Padded multi a (pads ++ b) := by
  induction pads with
  | nil => exact h
  | cons e pads ih =>
    exact .pad (hp e List.mem_cons_self) ha (ih fun d hd => hp d (List.mem_cons_of_mem e hd))

theorem refl (text : List Char) : Padded true text text := by
  simpa using nil.append_left text

theorem length_le (h : Padded multi a b) : a.length ≤ b.length := by
  induction h with
  | nil => exact Nat.le_refl 0
  | cons hc h ih => exact Nat.succ_le_succ ih
  | pad he ha h ih => exact Nat.le_succ_of_le ih

theorem weight_eq (h : Padded multi a b) : weight a = weight b := by
  induction h with
  | nil => rfl
  | cons hc h ih => rw [weight, List.countP_cons, ← weight, ih, weight, weight, List.countP_cons]
  | pad he ha h ih =>
    rw [ih, weight, weight, List.countP_cons_of_neg (by simp [isGap_of_isPad he])]

/-- Pads come in only before a line feed. -/
theorem of_cons {c : Char} (h : Padded multi (c :: a) b) (hc : c ≠ '\n') :
    ∃ b', b = c :: b' ∧ Padded multi a b' := by
  cases h with
  | cons _ h => exact ⟨_, rfl, h⟩
  | pad he ha h => exact absurd (atLineEnd_cons.mp ha) hc

theorem mem_iff (h : Padded multi a b) {c : Char} (hc : ¬ isGap c) : c ∈ a ↔ c ∈ b := by
  induction h with
  | nil => exact Iff.rfl
  | cons _ h ih => rw [List.mem_cons, List.mem_cons, ih]
  | pad he ha h ih =>
    rw [List.mem_cons, ih]
    refine (or_iff_right ?_).symm
    rintro rfl
    exact hc (isGap_of_isPad he)

theorem contains_eq (h : Padded multi a b) {c : Char} (hc : ¬ isGap c) :
    a.contains c = b.contains c := by
  rw [Bool.eq_iff_iff, List.contains_iff_mem, List.contains_iff_mem]
  exact h.mem_iff hc

theorem head?_eq_some_iff (h : Padded multi a b) {c : Char} (hc : ¬ isGap c) :
    a.head? = some c ↔ b.head? = some c := by
  cases h with
  | nil => exact Iff.rfl
  | cons _ h => exact Iff.rfl
  | @pad e a b he ha h =>
    refine iff_of_false (fun hs => ?_) (fun hs => ?_)
    · have hn : c = '\n' := ha c hs
      exact hc (hn ▸ isGap_lineFeed)
    · have hn : e = c := Option.some.inj hs
      exact hc (hn ▸ isGap_of_isPad he)

theorem head?_beq (h : Padded multi a b) {c : Char} (hc : ¬ isGap c) :
    (a.head? == some c) = (b.head? == some c) := by
  rw [Bool.eq_iff_iff, beq_iff_eq, beq_iff_eq]
  exact h.head?_eq_some_iff hc

/-- What goes on over every gap stops at the same character in both texts. -/
theorem dropWhile_of_gap {p : Char → Bool} (hp : ∀ c, isGap c → p c) (h : Padded multi a b) :
    Padded multi (a.dropWhile p) (b.dropWhile p) := by
  induction h with
  | nil => exact .nil
  | @cons c a b hc h ih =>
    by_cases hpc : p c = true
    · rw [List.dropWhile_cons_of_pos hpc, List.dropWhile_cons_of_pos hpc]
      exact ih
    · rw [List.dropWhile_cons_of_neg hpc, List.dropWhile_cons_of_neg hpc]
      exact .cons hc h
  | pad he ha h ih =>
    rw [List.dropWhile_cons_of_pos (hp _ (isGap_of_isPad he))]
    exact ih

/-- What stops at every gap is the same in both texts, and leaves the same. -/
theorem span_of_not_gap {p : Char → Bool} (hp : ∀ c, isGap c → p c = false)
    (h : Padded multi a b) :
    a.takeWhile p = b.takeWhile p ∧ Padded multi (a.dropWhile p) (b.dropWhile p) := by
  induction h with
  | nil => exact ⟨rfl, .nil⟩
  | @cons c a b hc h ih =>
    by_cases hpc : p c = true
    · rw [List.takeWhile_cons_of_pos hpc, List.takeWhile_cons_of_pos hpc,
        List.dropWhile_cons_of_pos hpc, List.dropWhile_cons_of_pos hpc, ih.1]
      exact ⟨rfl, ih.2⟩
    · rw [List.takeWhile_cons_of_neg hpc, List.takeWhile_cons_of_neg hpc,
        List.dropWhile_cons_of_neg hpc, List.dropWhile_cons_of_neg hpc]
      exact ⟨rfl, .cons hc h⟩
  | @pad e a b he ha h ih =>
    have hpe : ¬ p e = true := by simp [hp e (isGap_of_isPad he)]
    rw [List.takeWhile_cons_of_neg hpe, List.dropWhile_cons_of_neg hpe]
    cases a with
    | nil => exact ⟨rfl, .pad he ha h⟩
    | cons c a =>
      have hpc : ¬ p c = true := by
        rw [atLineEnd_cons.mp ha, hp _ isGap_lineFeed]
        exact Bool.false_ne_true
      rw [List.takeWhile_cons_of_neg hpc, List.dropWhile_cons_of_neg hpc]
      exact ⟨rfl, .pad he ha h⟩

theorem skipBlanks (h : Padded multi a b) :
    Padded multi (Text.skipBlanks a) (Text.skipBlanks b) :=
  h.dropWhile_of_gap fun _ => isBlank_of_isGap

end Padded

/-! One line, which only has more pads after it. -/

namespace Padded

theorem lineFeed_not_mem (h : Padded false a b) : '\n' ∉ a := by
  induction h with
  | nil => exact List.not_mem_nil
  | cons hc h ih =>
    rw [List.mem_cons, not_or]
    exact ⟨fun hn => Bool.false_ne_true (hc hn.symm), ih⟩
  | pad he ha h ih => exact ih

theorem eq_nil_of_atLineEnd (h : Padded false a b) (ha : AtLineEnd a) : a = [] := by
  cases a with
  | nil => rfl
  | cons c a =>
    have hc := atLineEnd_cons.mp ha
    subst hc
    exact absurd List.mem_cons_self h.lineFeed_not_mem

theorem exists_append (h : Padded false a b) :
    ∃ pads, (∀ e ∈ pads, isPad e) ∧ b = a ++ pads := by
  induction h with
  | nil => exact ⟨[], fun _ he => absurd he List.not_mem_nil, rfl⟩
  | cons hc h ih =>
    obtain ⟨pads, hp, rfl⟩ := ih
    exact ⟨pads, hp, rfl⟩
  | @pad e a b he ha h ih =>
    obtain ⟨pads, hp, hb⟩ := ih
    obtain rfl := h.eq_nil_of_atLineEnd ha
    refine ⟨e :: pads, fun d hd => ?_, by rw [hb]; rfl⟩
    rcases List.mem_cons.mp hd with rfl | hd
    · exact he
    · exact hp d hd

theorem lineFeed_not_mem_right (h : Padded false a b) : '\n' ∉ b := by
  obtain ⟨pads, hp, rfl⟩ := h.exists_append
  rw [List.mem_append, not_or]
  exact ⟨h.lineFeed_not_mem, fun hn => ne_lineFeed_of_isPad (hp _ hn) rfl⟩

theorem of_cons_line {c : Char} (h : Padded false (c :: a) b) :
    ∃ b', b = c :: b' ∧ Padded false a b' := by
  refine h.of_cons ?_
  rintro rfl
  exact h.lineFeed_not_mem List.mem_cons_self

theorem drop (h : Padded false a b) (k : ℕ) : Padded false (a.drop k) (b.drop k) := by
  induction h generalizing k with
  | nil => simpa using Padded.nil
  | cons hc h ih =>
    cases k with
    | zero => exact .cons hc h
    | succ k => exact ih k
  | @pad e a b he ha h ih =>
    cases k with
    | zero => exact .pad he ha h
    | succ k =>
      have hk := ih k
      obtain rfl := h.eq_nil_of_atLineEnd ha
      simpa using hk

/-- The pads are passed over only where nothing else is left. -/
theorem takeWhile_eq {p : Char → Bool} (h : Padded false a b) :
    a.takeWhile p = b.takeWhile p ∨ a.dropWhile p = [] := by
  induction h with
  | nil => exact Or.inl rfl
  | @cons c a b hc h ih =>
    by_cases hpc : p c = true
    · rw [List.takeWhile_cons_of_pos hpc, List.takeWhile_cons_of_pos hpc,
        List.dropWhile_cons_of_pos hpc]
      exact ih.imp_left (congrArg (c :: ·))
    · rw [List.takeWhile_cons_of_neg hpc, List.takeWhile_cons_of_neg hpc]
      exact Or.inl rfl
  | pad he ha h ih =>
    rw [h.eq_nil_of_atLineEnd ha]
    exact Or.inr rfl

theorem trimEnd_eq (h : Padded false a b) : trimEnd a = trimEnd b := by
  obtain ⟨pads, hp, rfl⟩ := h.exists_append
  have hb : ∀ e ∈ pads.reverse, isBlank e = true := by
    intro e he
    exact isBlank_of_isGap (isGap_of_isPad (hp e (List.mem_reverse.mp he)))
  rw [trimEnd, trimEnd, List.reverse_append, List.dropWhile_append_of_pos hb]

theorem trim_eq (h : Padded false a b) : trim a = trim b := h.skipBlanks.trimEnd_eq

/-- Lines go on their own, each with its pads. -/
theorem lines (h : Padded true a b) :
    List.Forall₂ (Padded false) (Text.lines a) (Text.lines b) := by
  induction h with
  | nil => exact .cons .nil .nil
  | @cons c a b hc h ih =>
    rw [lines_cons, lines_cons]
    by_cases hn : c = '\n'
    · rw [if_pos hn, if_pos hn]
      exact .cons .nil ih
    · obtain ⟨x, xs, hx⟩ := List.exists_cons_of_ne_nil (lines_ne_nil a)
      obtain ⟨y, ys, hy⟩ := List.exists_cons_of_ne_nil (lines_ne_nil b)
      rw [hx, hy] at ih
      obtain ⟨hxy, hrest⟩ := List.forall₂_cons.mp ih
      rw [if_neg hn, if_neg hn, hx, hy]
      exact .cons (.cons (fun h => absurd h hn) hxy) hrest
  | @pad e a b he ha h ih =>
    obtain ⟨y, ys, hy⟩ := List.exists_cons_of_ne_nil (lines_ne_nil b)
    obtain ⟨xs, hx⟩ : ∃ xs, Text.lines a = [] :: xs := by
      cases a with
      | nil => exact ⟨[], rfl⟩
      | cons c a => exact ⟨_, by rw [lines_cons, if_pos (atLineEnd_cons.mp ha)]⟩
    rw [hx, hy] at ih
    obtain ⟨hxy, hrest⟩ := List.forall₂_cons.mp ih
    rw [lines_cons, if_neg (ne_lineFeed_of_isPad he), hx, hy]
    exact .cons (.pad he atLineEnd_nil hxy) hrest

end Padded

section Forall₂
variable {α β γ : Type} {R : α → β → Prop} {l : List α} {l' : List β}

theorem flatMap_eq_of_forall₂ {f : α → List γ} {g : β → List γ} (h : List.Forall₂ R l l')
    (hfg : ∀ u v, R u v → f u = g v) : l.flatMap f = l'.flatMap g := by
  induction h with
  | nil => rfl
  | cons hr h ih => rw [List.flatMap_cons, List.flatMap_cons, hfg _ _ hr, ih]

theorem filterMap_eq_of_forall₂ {f : α → Option γ} {g : β → Option γ} (h : List.Forall₂ R l l')
    (hfg : ∀ u v, R u v → f u = g v) : l.filterMap f = l'.filterMap g := by
  induction h with
  | nil => rfl
  | cons hr h ih => rw [List.filterMap_cons, List.filterMap_cons, hfg _ _ hr, ih]

theorem any_eq_of_forall₂ {p : α → Bool} {q : β → Bool} (h : List.Forall₂ R l l')
    (hpq : ∀ u v, R u v → p u = q v) : l.any p = l'.any q := by
  induction h with
  | nil => rfl
  | cons hr h ih => rw [List.any_cons, List.any_cons, hpq _ _ hr, ih]

theorem map_eq_of_forall₂ {f : α → γ} {g : β → γ} (h : List.Forall₂ R l l')
    (hfg : ∀ u v, R u v → f u = g v) : l.map f = l'.map g := by
  induction h with
  | nil => rfl
  | cons hr h ih => rw [List.map_cons, List.map_cons, hfg _ _ hr, ih]

theorem rel_find?_of_forall₂ {p : α → Bool} {q : β → Bool} (h : List.Forall₂ R l l')
    (hpq : ∀ u v, R u v → p u = q v) : Option.Rel R (l.find? p) (l'.find? q) := by
  induction h with
  | nil => exact .none
  | @cons u v _ _ hr h ih =>
    rw [List.find?_cons, List.find?_cons, hpq u v hr]
    cases q v with
    | true => exact .some hr
    | false => exact ih

theorem rel_head?_of_forall₂ (h : List.Forall₂ R l l') : Option.Rel R l.head? l'.head? := by
  cases h with
  | nil => exact .none
  | cons hr _ => exact .some hr

theorem rel_getLast?_of_forall₂ (h : List.Forall₂ R l l') :
    Option.Rel R l.getLast? l'.getLast? := by
  rw [List.getLast?_eq_head?_reverse, List.getLast?_eq_head?_reverse]
  exact rel_head?_of_forall₂ (List.forall₂_reverse_iff.mpr h)

end Forall₂

theorem forall₂_zipIdx {α β : Type} {R : α → β → Prop} {l : List α} {l' : List β}
    (h : List.Forall₂ R l l') (n : ℕ) :
    List.Forall₂ (fun u v => R u.1 v.1 ∧ u.2 = v.2) (l.zipIdx n) (l'.zipIdx n) := by
  induction h generalizing n with
  | nil => exact .nil
  | cons hr h ih => exact .cons ⟨hr, rfl⟩ (ih (n + 1))

/-- A line and its number beside those of the other text. -/
def PaddedLine (u v : List Char × ℕ) : Prop := Padded false u.1 v.1 ∧ u.2 = v.2

theorem Padded.numbered (h : Padded true a b) :
    List.Forall₂ PaddedLine (Text.numbered a) (Text.numbered b) :=
  forall₂_zipIdx h.lines 1

namespace Padded

theorem flatMap_numbered {α : Type} {f : List Char × ℕ → List α} (h : Padded true a b)
    (hf : ∀ x y n, Padded false x y → f (x, n) = f (y, n)) :
    (Text.numbered a).flatMap f = (Text.numbered b).flatMap f := by
  refine flatMap_eq_of_forall₂ h.numbered fun u v huv => ?_
  exact (hf u.1 v.1 u.2 huv.1).trans (congrArg (fun n => f (v.1, n)) huv.2)

theorem filterMap_numbered {α : Type} {f : List Char × ℕ → Option α} (h : Padded true a b)
    (hf : ∀ x y n, Padded false x y → f (x, n) = f (y, n)) :
    (Text.numbered a).filterMap f = (Text.numbered b).filterMap f := by
  refine filterMap_eq_of_forall₂ h.numbered fun u v huv => ?_
  exact (hf u.1 v.1 u.2 huv.1).trans (congrArg (fun n => f (v.1, n)) huv.2)

end Padded

end SnippetLint.Text
