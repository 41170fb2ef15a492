import Mathlib.Combinatorics.Enumerative.DyckWord
import Mathlib.Data.Finset.Card
import SnippetLint.Pass.Brackets
import SnippetLint.Proofs.Text.Offsets

/-! The brackets that a scan reports are a least repair. Without them the text is balanced, and
whatever else is taken out of the text to balance it is no less. -/
namespace SnippetLint
open Text

namespace Text

/-- A text that starts at `p`, without the characters at the positions. -/
def withoutFrom (ps : Finset Position) (p : Position) : List Char → List Char
  | [] => []
  | c :: cs =>
    if p ∈ ps then withoutFrom ps (p.advance c) cs else c :: withoutFrom ps (p.advance c) cs

def without (ps : Finset Position) (text : List Char) : List Char := withoutFrom ps .first text

variable (ps : Finset Position)

theorem withoutFrom_sublist (p : Position) (text : List Char) :
    (withoutFrom ps p text).Sublist text := by
  induction text generalizing p with
  | nil => exact List.Sublist.slnil
  | cons c cs ih =>
    unfold withoutFrom
    split_ifs
    · exact (ih _).cons c
    · exact (ih _).cons_cons c

/-- One position takes out one character at the most. -/
theorem length_le_withoutFrom (p : Position) (text : List Char) :
    text.length ≤ (withoutFrom ps p text).length + (ps.filter (p ≤ ·)).card := by
  induction text generalizing p with
  | nil => exact Nat.zero_le _
  | cons c cs ih =>
    have hlt : p < p.advance c := Position.lt_advance p c
    have hsub : ps.filter (p.advance c ≤ ·) ⊆ ps.filter (p ≤ ·) := by
      intro x hx
      rw [Finset.mem_filter] at hx ⊢
      exact ⟨hx.1, hlt.le.trans hx.2⟩
    have hih := ih (p.advance c)
    unfold withoutFrom
    split_ifs with hp
    · have hss : ps.filter (p.advance c ≤ ·) ⊂ ps.filter (p ≤ ·) := by
        refine Finset.ssubset_iff_subset_ne.mpr ⟨hsub, fun he => ?_⟩
        have hmem : p ∈ ps.filter (p.advance c ≤ ·) := by
          rw [he, Finset.mem_filter]
          exact ⟨hp, le_rfl⟩
        exact absurd (Finset.mem_filter.mp hmem).2 hlt.not_ge
      have hcard := Finset.card_lt_card hss
      rw [List.length_cons]
      omega
    · have hcard := Finset.card_le_card hsub
      rw [List.length_cons, List.length_cons]
      omega

theorem length_le_without (text : List Char) :
    text.length ≤ (without ps text).length + ps.card :=
  (length_le_withoutFrom ps .first text).trans
    (Nat.add_le_add_left (Finset.card_filter_le ps _) _)

/-- The position is that of a character `c` of the text. -/
def HasAt (text : List Char) (c : Char) (p : Position) : Prop :=
  ∃ before rest, text = before ++ c :: rest ∧ p = .ofByte text (byteLength before)

theorem hasAt_after (before rest : List Char) (c : Char) :
    HasAt (before ++ c :: rest) c (.after before) :=
  ⟨before, rest, rfl, (Position.ofByte_byteLength before (c :: rest)).symm⟩

end Text

namespace Bracket

theorem closing_ne_opening (b : Bracket) : b.closing ≠ b.opening := by
  cases b <;> decide

section
variable (b : Bracket) (p : Position) (opens : List Position) (cs : List Char)

theorem scanFrom_opening : b.scanFrom p opens (b.opening :: cs) =
    b.scanFrom (p.advance b.opening) (p :: opens) cs := by
  rw [scanFrom.eq_def]
  exact if_pos rfl

theorem scanFrom_closing (o : Position) : b.scanFrom p (o :: opens) (b.closing :: cs) =
    b.scanFrom (p.advance b.closing) opens cs := by
  rw [scanFrom, if_neg b.closing_ne_opening, if_pos rfl]

theorem scanFrom_unmatched : b.scanFrom p [] (b.closing :: cs) =
    b.unmatched p :: b.scanFrom (p.advance b.closing) [] cs := by
  rw [scanFrom, if_neg b.closing_ne_opening, if_pos rfl]

theorem scanFrom_other {c : Char} (ho : c ≠ b.opening) (hc : c ≠ b.closing) :
    b.scanFrom p opens (c :: cs) = b.scanFrom (p.advance c) opens cs := by
  rw [scanFrom.eq_def]
  dsimp only
  rw [if_neg ho, if_neg hc]

end

/-- A scan from `p` on, where `opens` are open, ends with closing brackets at `closes` that close
nothing and opening ones at `left` that nothing closes. -/
inductive Finds (b : Bracket) :
    Position → List Position → List Char → List Position → List Position → Prop
  | nil {p : Position} {opens : List Position} : Finds b p opens [] [] opens.reverse
  | opening {p : Position} {opens closes left : List Position} {cs : List Char}
      (h : Finds b (p.advance b.opening) (p :: opens) cs closes left) :
      Finds b p opens (b.opening :: cs) closes left
  | closing {p o : Position} {opens closes left : List Position} {cs : List Char}
      (h : Finds b (p.advance b.closing) opens cs closes left) :
      Finds b p (o :: opens) (b.closing :: cs) closes left
  | unmatched {p : Position} {closes left : List Position} {cs : List Char}
      (h : Finds b (p.advance b.closing) [] cs closes left) :
      Finds b p [] (b.closing :: cs) (p :: closes) left
  | other {p : Position} {opens closes left : List Position} {c : Char} {cs : List Char}
      (ho : c ≠ b.opening) (hc : c ≠ b.closing)
      (h : Finds b (p.advance c) opens cs closes left) : Finds b p opens (c :: cs) closes left

theorem exists_finds (b : Bracket) (p : Position) (opens : List Position) (cs : List Char) :
    ∃ closes left, Finds b p opens cs closes left := by
  induction cs generalizing p opens with
  | nil => exact ⟨[], opens.reverse, .nil⟩
  | cons c cs ih =>
    by_cases ho : c = b.opening
    · subst ho
      obtain ⟨closes, left, h⟩ := ih (p.advance b.opening) (p :: opens)
      exact ⟨closes, left, .opening h⟩
    · by_cases hc : c = b.closing
      · subst hc
        cases opens with
        | nil =>
          obtain ⟨closes, left, h⟩ := ih (p.advance b.closing) []
          exact ⟨p :: closes, left, .unmatched h⟩
        | cons o opens =>
          obtain ⟨closes, left, h⟩ := ih (p.advance b.closing) opens
          exact ⟨closes, left, .closing h⟩
      · obtain ⟨closes, left, h⟩ := ih (p.advance c) opens
        exact ⟨closes, left, .other ho hc h⟩

namespace Finds
variable {b : Bracket} {p : Position} {opens closes left : List Position} {cs : List Char}

theorem scanFrom_eq (h : Finds b p opens cs closes left) :
    b.scanFrom p opens cs = closes.map b.unmatched ++ left.map b.unclosed := by
  induction h with
  | nil => rfl
  | opening _ ih => rw [scanFrom_opening, ih]
  | closing _ ih => rw [scanFrom_closing, ih]
  | unmatched _ ih => rw [scanFrom_unmatched, ih, List.map_cons, List.cons_append]
  | other ho hc _ ih => rw [scanFrom_other _ _ _ _ ho hc, ih]

/-- Only what is open or still to be read is found. -/
theorem mem_or_le (h : Finds b p opens cs closes left) {x : Position} (hx : x ∈ closes ++ left) :
    x ∈ opens ∨ p ≤ x := by
  induction h with
  | nil => exact .inl (List.mem_reverse.mp hx)
  | @opening p _ _ _ _ _ ih =>
    have hlt := Position.lt_advance p b.opening
    rcases ih hx with hx | hx
    · rcases List.mem_cons.mp hx with rfl | hx
      · exact .inr le_rfl
      · exact .inl hx
    · exact .inr (hlt.le.trans hx)
  | @closing p o _ _ _ _ _ ih =>
    have hlt := Position.lt_advance p b.closing
    rcases ih hx with hx | hx
    · exact .inl (List.mem_cons_of_mem o hx)
    · exact .inr (hlt.le.trans hx)
  | @unmatched p _ _ _ _ ih =>
    have hlt := Position.lt_advance p b.closing
    rcases List.mem_cons.mp hx with rfl | hx
    · exact .inr le_rfl
    · rcases ih hx with hx | hx
      · exact .inl hx
      · exact .inr (hlt.le.trans hx)
  | @other p _ _ _ c _ _ _ _ ih =>
    have hlt := Position.lt_advance p c
    rcases ih hx with hx | hx
    · exact .inl hx
    · exact .inr (hlt.le.trans hx)

end Finds

/-- The brackets open at `p` stand before it, the innermost last. -/
structure OpenBefore (p : Position) (opens : List Position) : Prop where
  lt : ∀ o ∈ opens, o < p
  pairwise : opens.Pairwise (· > ·)

namespace OpenBefore
variable {p : Position} {opens : List Position}

theorem nil (p : Position) : OpenBefore p [] :=
  ⟨fun _ h => absurd h List.not_mem_nil, .nil⟩

theorem advance (h : OpenBefore p opens) (c : Char) : OpenBefore (p.advance c) opens :=
  ⟨fun o ho => (h.lt o ho).trans (Position.lt_advance p c), h.pairwise⟩

theorem push (h : OpenBefore p opens) (c : Char) : OpenBefore (p.advance c) (p :: opens) where
  lt := List.forall_mem_cons.mpr ⟨Position.lt_advance p c, (h.advance c).lt⟩
  pairwise := List.pairwise_cons.mpr ⟨h.lt, h.pairwise⟩

theorem pop {o : Position} (h : OpenBefore p (o :: opens)) : OpenBefore p opens :=
  ⟨fun x hx => h.lt x (List.mem_cons_of_mem o hx), (List.pairwise_cons.mp h.pairwise).2⟩

/-- What is read is not found further on. -/
theorem not_mem {b : Bracket} {closes left : List Position} {cs : List Char} {c : Char}
    (h : OpenBefore p opens) (hf : Finds b (p.advance c) opens cs closes left) :
    p ∉ closes ++ left := by
  intro hp
  rcases hf.mem_or_le hp with hp | hp
  · exact absurd (h.lt p hp) (lt_irrefl p)
  · exact absurd hp (Position.lt_advance p c).not_ge

/-- A bracket that is closed is not found. -/
theorem closed_not_mem {b : Bracket} {o : Position} {closes left : List Position}
    {cs : List Char} {c : Char} (h : OpenBefore p (o :: opens))
    (hf : Finds b (p.advance c) opens cs closes left) : o ∉ closes ++ left := by
  intro ho
  have hop : o < p := h.lt o List.mem_cons_self
  rcases hf.mem_or_le ho with ho | ho
  · exact absurd ((List.pairwise_cons.mp h.pairwise).1 o ho) (lt_irrefl o)
  · exact absurd (hop.trans (Position.lt_advance p c)) ho.not_gt

end OpenBefore

namespace Finds
variable {b : Bracket} {p : Position} {opens closes left : List Position} {cs : List Char}

/-- A closing bracket closes nothing only where nothing is open, so all that is left open stands
behind it. -/
theorem pairwise (h : Finds b p opens cs closes left) (ho : OpenBefore p opens) :
    (closes ++ left).Pairwise (· < ·) := by
  induction h with
  | nil => exact List.pairwise_reverse.mpr ho.pairwise
  | opening _ ih => exact ih (ho.push _)
  | closing _ ih => exact ih (ho.pop.advance _)
  | @unmatched p _ _ _ h ih =>
    refine List.pairwise_cons.mpr ⟨fun x hx => ?_, ih (ho.advance _)⟩
    rcases h.mem_or_le hx with hx | hx
    · exact absurd hx List.not_mem_nil
    · exact (Position.lt_advance p b.closing).trans_le hx
  | other _ _ _ ih => exact ih (ho.advance _)

/-- The scan of the text without what was found, with those of `opens` open that were not. -/
theorem scanFrom_withoutFrom (h : Finds b p opens cs closes left) (ho : OpenBefore p opens)
    {ps : Finset Position}
    (hps : ∀ x, x ∈ opens ∨ p ≤ x → (x ∈ ps ↔ x ∈ closes ++ left)) (q : Position)
    {kept : List Position} (hk : kept.length = opens.countP (· ∉ ps)) :
    b.scanFrom q kept (withoutFrom ps p cs) = [] := by
  induction h generalizing q kept with
  | @nil p opens =>
    have hall : opens.countP (· ∉ ps) = 0 := by
      refine List.countP_eq_zero.mpr fun o hm => ?_
      have hin := (hps o (.inl hm)).mpr (List.mem_reverse.mpr hm)
      simpa using hin
    rw [hall] at hk
    rw [List.length_eq_zero_iff.mp hk]
    rfl
  | @opening p opens closes left cs h ih =>
    have hih : ∀ x, x ∈ p :: opens ∨ p.advance b.opening ≤ x →
        (x ∈ ps ↔ x ∈ closes ++ left) := by
      intro x hx
      refine hps x ?_
      rcases hx with hx | hx
      · rcases List.mem_cons.mp hx with rfl | hx
        · exact .inr le_rfl
        · exact .inl hx
      · exact .inr ((Position.lt_advance p b.opening).le.trans hx)
    unfold withoutFrom
    split_ifs with hp
    · exact ih (ho.push _) hih q (by rw [hk, List.countP_cons]; simp [hp])
    · rw [scanFrom_opening]
      exact ih (ho.push _) hih _ (by rw [List.length_cons, hk, List.countP_cons]; simp [hp])
  | @closing p o opens closes left cs h ih =>
    have hp : p ∉ ps := fun hm =>
      ho.pop.not_mem h ((hps p (.inr le_rfl)).mp hm)
    have hop : o ∉ ps := fun hm =>
      ho.closed_not_mem h ((hps o (.inl List.mem_cons_self)).mp hm)
    have hih : ∀ x, x ∈ opens ∨ p.advance b.closing ≤ x → (x ∈ ps ↔ x ∈ closes ++ left) := by
      intro x hx
      refine hps x (hx.imp (List.mem_cons_of_mem o) fun hx => ?_)
      exact (Position.lt_advance p b.closing).le.trans hx
    rw [withoutFrom, if_neg hp]
    rw [List.countP_cons] at hk
    simp only [hop, not_false_eq_true, decide_true, if_true] at hk
    obtain ⟨k, kept, rfl⟩ := List.exists_cons_of_length_eq_add_one hk
    rw [scanFrom_closing]
    exact ih (ho.pop.advance _) hih _ (Nat.succ.inj hk)
  | @unmatched p closes left cs h ih =>
    have hp : p ∈ ps := (hps p (.inr le_rfl)).mpr List.mem_cons_self
    have hih : ∀ x, x ∈ [] ∨ p.advance b.closing ≤ x → (x ∈ ps ↔ x ∈ closes ++ left) := by
      rintro x (hx | hx)
      · exact absurd hx List.not_mem_nil
      · have hlt := (Position.lt_advance p b.closing).trans_le hx
        rw [hps x (.inr hlt.le), List.cons_append, List.mem_cons]
        exact or_iff_right hlt.ne'
    rw [withoutFrom, if_pos hp]
    exact ih (ho.advance _) hih q hk
  | @other p opens closes left c cs hop hcl h ih =>
    have hp : p ∉ ps := fun hm => ho.not_mem h ((hps p (.inr le_rfl)).mp hm)
    have hih : ∀ x, x ∈ opens ∨ p.advance c ≤ x → (x ∈ ps ↔ x ∈ closes ++ left) :=
      fun x hx => hps x (hx.imp_right (Position.lt_advance p c).le.trans)
    rw [withoutFrom, if_neg hp, scanFrom_other _ _ _ _ hop hcl]
    exact ih (ho.advance _) hih _ hk

theorem hasAt (h : Finds b p opens cs closes left) {before : List Char} (hp : p = .after before)
    (ho : ∀ o ∈ opens, HasAt (before ++ cs) b.opening o) :
    (∀ x ∈ closes, HasAt (before ++ cs) b.closing x) ∧
      ∀ x ∈ left, HasAt (before ++ cs) b.opening x := by
  induction h generalizing before with
  | nil => exact ⟨fun _ h => absurd h List.not_mem_nil, fun x hx => ho x (List.mem_reverse.mp hx)⟩
  | @opening p opens _ _ cs _ ih =>
    subst hp
    have hs : before ++ [b.opening] ++ cs = before ++ b.opening :: cs := by simp
    rw [← hs]
    refine ih (Position.after_append_singleton before b.opening).symm ?_
    rw [hs]
    exact List.forall_mem_cons.mpr ⟨hasAt_after before cs b.opening, ho⟩
  | @closing p o opens _ _ cs _ ih =>
    subst hp
    have hs : before ++ [b.closing] ++ cs = before ++ b.closing :: cs := by simp
    rw [← hs] at ho ⊢
    exact ih (Position.after_append_singleton before b.closing).symm
      fun x hx => ho x (List.mem_cons_of_mem o hx)
  | @unmatched p _ _ cs _ ih =>
    subst hp
    have hs : before ++ [b.closing] ++ cs = before ++ b.closing :: cs := by simp
    have hhere := hasAt_after before cs b.closing
    rw [← hs] at ho hhere ⊢
    obtain ⟨hc, hl⟩ := ih (Position.after_append_singleton before b.closing).symm ho
    exact ⟨List.forall_mem_cons.mpr ⟨hhere, hc⟩, hl⟩
  | @other p _ _ _ c cs _ _ _ ih =>
    subst hp
    have hs : before ++ [c] ++ cs = before ++ c :: cs := by simp
    rw [← hs] at ho ⊢
    exact ih (Position.after_append_singleton before c).symm ho

end Finds

/-- How many brackets a scan finds, by the number of those that are open. -/
def countFrom (b : Bracket) : ℕ → List Char → ℕ
  | n, [] => n
  | n, c :: cs =>
    if c = b.opening then countFrom b (n + 1) cs
    else if c = b.closing then
      match n with
      | n + 1 => countFrom b n cs
      | 0 => countFrom b 0 cs + 1
    else countFrom b n cs

theorem length_scanFrom (b : Bracket) (p : Position) (opens : List Position) (cs : List Char) :
    (b.scanFrom p opens cs).length = b.countFrom opens.length cs := by
  induction cs generalizing p opens with
  | nil => simp [scanFrom, countFrom]
  | cons c cs ih =>
    unfold scanFrom countFrom
    split_ifs
    · rw [ih, List.length_cons]
    · cases opens with
      | nil => simp [ih]
      | cons o opens => simp [ih]
    · rw [ih]

section
variable (b : Bracket)

/-- One more open bracket changes the count by one. -/
theorem countFrom_succ (n : ℕ) (cs : List Char) :
    b.countFrom (n + 1) cs ≤ b.countFrom n cs + 1 ∧
      b.countFrom n cs ≤ b.countFrom (n + 1) cs + 1 := by
  induction cs generalizing n with
  | nil => simp only [countFrom]; omega
  | cons c cs ih =>
    unfold countFrom
    split_ifs
    · exact ih (n + 1)
    · cases n with
      | zero => dsimp only; omega
      | succ n => exact ih n
    · exact ih n

theorem countFrom_cons_le (n : ℕ) (c : Char) (cs : List Char) :
    b.countFrom n (c :: cs) ≤ b.countFrom n cs + 1 := by
  rw [countFrom.eq_def]
  dsimp only
  split_ifs
  · exact (b.countFrom_succ n cs).1
  · cases n with
    | zero => exact le_rfl
    | succ n => exact (b.countFrom_succ n cs).2
  · exact Nat.le_succ _

/-- A character less takes one off the count at the most. -/
theorem countFrom_le_of_sublist {cs text : List Char} (h : cs.Sublist text) (n : ℕ) :
    b.countFrom n text + cs.length ≤ b.countFrom n cs + text.length := by
  induction h generalizing n with
  | slnil => exact le_rfl
  | @cons cs text c _ ih =>
    have hle := b.countFrom_cons_le n c text
    have hih := ih n
    rw [List.length_cons]
    omega
  | @cons_cons cs text c _ ih =>
    rw [List.length_cons, List.length_cons]
    unfold countFrom
    split_ifs
    · have hih := ih (n + 1)
      omega
    · cases n with
      | zero =>
        have hih := ih 0
        dsimp only
        omega
      | succ n =>
        have hih := ih n
        dsimp only
        omega
    · have hih := ih n
      omega

open DyckStep

/-- The brackets of a text as steps up and down. -/
def steps : List Char → List DyckStep
  | [] => []
  | c :: cs =>
    if c = b.opening then U :: steps cs else if c = b.closing then D :: steps cs else steps cs

/-- From a height `n` the steps end on the ground and never go below it. -/
structure Lands (n : ℕ) (w : List DyckStep) : Prop where
  ends : n + w.count U = w.count D
  stays (i : ℕ) : (w.take i).count D ≤ n + (w.take i).count U

theorem lands_up {n : ℕ} {w : List DyckStep} : Lands n (U :: w) ↔ Lands (n + 1) w := by
  constructor
  · rintro ⟨he, hs⟩
    constructor
    · simp at he
      omega
    · intro i
      have := hs (i + 1)
      simp at this
      omega
  · rintro ⟨he, hs⟩
    constructor
    · simp
      omega
    · intro i
      cases i with
      | zero => simp
      | succ i =>
        have := hs i
        simp
        omega

theorem lands_down {n : ℕ} {w : List DyckStep} : Lands (n + 1) (D :: w) ↔ Lands n w := by
  constructor
  · rintro ⟨he, hs⟩
    constructor
    · simp at he
      omega
    · intro i
      have := hs (i + 1)
      simp at this
      omega
  · rintro ⟨he, hs⟩
    constructor
    · simp
      omega
    · intro i
      cases i with
      | zero => simp
      | succ i =>
        have := hs i
        simp
        omega

theorem not_lands_down {w : List DyckStep} : ¬ Lands 0 (D :: w) := by
  rintro ⟨-, hs⟩
  have := hs 1
  simp at this

theorem countFrom_eq_zero_iff (n : ℕ) (cs : List Char) :
    b.countFrom n cs = 0 ↔ Lands n (b.steps cs) := by
  induction cs generalizing n with
  | nil =>
    constructor
    · rintro rfl
      exact ⟨rfl, fun i => by simp [steps]⟩
    · exact fun h => by simpa [steps, countFrom] using h.ends
  | cons c cs ih =>
    unfold countFrom steps
    split_ifs
    · rw [ih, lands_up]
    · cases n with
      | zero => exact iff_of_false (Nat.succ_ne_zero _) not_lands_down
      | succ n => rw [lands_down, ← ih]
    · exact ih n

theorem lands_zero_iff (w : List DyckStep) : Lands 0 w ↔ ∃ d : DyckWord, d.toList = w := by
  constructor
  · rintro ⟨he, hs⟩
    exact ⟨⟨w, by omega, fun i => by have := hs i; omega⟩, rfl⟩
  · rintro ⟨d, rfl⟩
    exact ⟨by rw [Nat.zero_add, d.count_U_eq_count_D],
      fun i => by rw [Nat.zero_add]; exact d.count_D_le_count_U i⟩

end

theorem scan_eq_nil_iff (b : Bracket) (code : List Char) :
    scan code b = [] ↔ ∃ d : DyckWord, d.toList = b.steps code := by
  rw [← lands_zero_iff, ← countFrom_eq_zero_iff, ← List.length_eq_zero_iff, scan, length_scanFrom]
  rfl

/-- Closing brackets that close nothing are reported first, then opening ones that nothing closes,
in the order of the text and each at the character itself. The text without them is balanced, and
no smaller number of positions does as much. -/
theorem scan_least_repair (b : Bracket) (code : List Char) :
    (∃ closes left : List Position,
      scan code b = closes.map b.unmatched ++ left.map b.unclosed ∧
        (∀ p ∈ closes, HasAt code b.closing p) ∧
        (∀ p ∈ left, HasAt code b.opening p) ∧ (closes ++ left).Pairwise (· < ·)) ∧
    scan (without ((scan code b).map Diagnostic.position).toFinset code) b = [] ∧
    (∀ ps : Finset Position, scan (without ps code) b = [] → (scan code b).length ≤ ps.card) ∧
    (scan code b = [] ↔ ∃ d : DyckWord, d.toList = b.steps code) := by
  obtain ⟨closes, left, h⟩ := b.exists_finds .first [] code
  have heq : scan code b = closes.map b.unmatched ++ left.map b.unclosed := h.scanFrom_eq
  have hpos : (scan code b).map Diagnostic.position = closes ++ left := by
    rw [heq, List.map_append, List.map_map, List.map_map]
    exact congrArg₂ (· ++ ·) (List.map_id closes) (List.map_id left)
  refine ⟨?_, ?_, ?_, scan_eq_nil_iff b code⟩
  · have hstart : Position.first = .after [] := rfl
    obtain ⟨hc, hl⟩ := h.hasAt hstart fun _ h => absurd h List.not_mem_nil
    exact ⟨closes, left, heq, hc, hl, h.pairwise (.nil _)⟩
  · rw [hpos]
    exact h.scanFrom_withoutFrom (.nil _) (fun x _ => List.mem_toFinset) .first rfl
  · intro ps hps
    have hlen : (scan (without ps code) b).length = b.countFrom 0 (without ps code) :=
      length_scanFrom b .first [] (without ps code)
    rw [hps, List.length_nil] at hlen
    have hsub := b.countFrom_le_of_sublist (withoutFrom_sublist ps .first code) 0
    have hcard := length_le_without ps code
    have hscan : (scan code b).length = b.countFrom 0 code := length_scanFrom b .first [] code
    unfold without at hlen hcard
    omega

namespace Sample

/-- A closing bracket with nothing to close, and two opening ones for one closing. -/
def crossed : List Char := ")\n(a(b)".toList

/-- The other opening bracket can be taken out as well, which is no less. -/
theorem scan_crossed :
    scan (without {⟨1, 1⟩, ⟨2, 3⟩} crossed) .parenthesis = [] ∧
      scan crossed .parenthesis =
        [unmatched .parenthesis ⟨1, 1⟩, unclosed .parenthesis ⟨2, 1⟩] ∧
      (scan crossed .parenthesis).length ≤ ({⟨1, 1⟩, ⟨2, 3⟩} : Finset Position).card := by
  have h : scan (without {⟨1, 1⟩, ⟨2, 3⟩} crossed) .parenthesis = [] := by decide +kernel
  exact ⟨h, by decide +kernel, (scan_least_repair .parenthesis crossed).2.2.1 _ h⟩

end Sample
end Bracket
end SnippetLint
