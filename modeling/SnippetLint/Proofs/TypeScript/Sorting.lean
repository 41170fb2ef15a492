import Mathlib.Data.List.Forall2
import Mathlib.Data.List.Sort
import SnippetLint.TypeScript.Check

/-! Sorting in place of order: what is sorted by its place keeps every order that it has among
things of one place, so it goes together with leaving some out and with changing what is no part
of the place. -/
namespace SnippetLint.TypeScript

section
variable {α : Type} (r : α → α → Prop) [DecidableRel r]

theorem orderedInsert_append {a : α} {l m : List α} (hl : ∀ b ∈ l, ¬ r a b) (hm : ∀ b ∈ m, r a b) :
    (l ++ m).orderedInsert r a = l ++ a :: m := by
  induction l with
  | nil =>
    cases m with
    | nil => rfl
    | cons b m => exact List.orderedInsert_cons_of_le r m (hm b List.mem_cons_self)
  | cons b l ih =>
    obtain ⟨hb, hl⟩ := List.forall_mem_cons.mp hl
    rw [List.cons_append, List.orderedInsert_of_not_le r _ hb, ih hl, List.cons_append]

variable [IsTrans α r]

theorem filter_orderedInsert (p : α → Bool) (a : α) {l : List α} (hl : l.Pairwise r) :
    (l.orderedInsert r a).filter p =
      if p a then (l.filter p).orderedInsert r a else l.filter p := by
  induction l with
  | nil => cases hp : p a <;> simp [hp]
  | cons b l ih =>
    obtain ⟨hb, hl⟩ := List.pairwise_cons.mp hl
    by_cases hab : r a b
    · rw [List.orderedInsert_cons_of_le r l hab, List.filter_cons]
      split_ifs with hp
      · have hfirst : ∀ c ∈ (b :: l).filter p, r a c := by
          intro c hc
          rcases List.mem_cons.mp (List.mem_filter.mp hc).1 with rfl | hc
          · exact hab
          · exact trans_of r hab (hb c hc)
        exact (orderedInsert_append r (l := []) (List.forall_mem_nil _) hfirst).symm
      · rfl
    · rw [List.orderedInsert_of_not_le r l hab, List.filter_cons, ih hl, List.filter_cons]
      split_ifs
      · rw [List.orderedInsert_of_not_le r _ hab]
      · rfl
      · rfl
      · rfl

variable [Std.Total r]

/-- Sorting is putting in one by one, each before those that it is not after. -/
theorem mergeSort_eq_insertionSort_of_stable (l : List α) :
    l.mergeSort (r · ·) = l.insertionSort r := by
  have htrans (a b c : α) (hab : decide (r a b) = true) (hbc : decide (r b c) = true) :
      decide (r a c) = true :=
    decide_eq_true (trans_of r (of_decide_eq_true hab) (of_decide_eq_true hbc))
  have htotal (a b : α) : (decide (r a b) || decide (r b a)) = true := by
    simpa using total_of r a b
  induction l with
  | nil => rw [List.mergeSort_nil, List.insertionSort_nil]
  | cons a l ih =>
    obtain ⟨l₁, l₂, hs, hl, hlt⟩ := List.mergeSort_cons htrans htotal a l
    have hsorted := List.pairwise_mergeSort htrans htotal (a :: l)
    rw [hs, List.pairwise_append, List.pairwise_cons] at hsorted
    rw [List.insertionSort_cons, ← ih, hl, hs, orderedInsert_append r]
    · intro b hb
      simpa using hlt b hb
    · intro b hb
      exact of_decide_eq_true (hsorted.2.1.1 b hb)

/-- What is left out can be left out before. -/
theorem filter_insertionSort (p : α → Bool) (l : List α) :
    (l.insertionSort r).filter p = (l.filter p).insertionSort r := by
  induction l with
  | nil => rfl
  | cons a l ih =>
    rw [List.insertionSort_cons, filter_orderedInsert r p a (List.pairwise_insertionSort r l), ih,
      List.filter_cons]
    split_ifs
    · rw [List.insertionSort_cons]
    · rfl

theorem sublist_insertionSort_of_sublist {l m : List α} (h : l.Sublist m) :
    (l.insertionSort r).Sublist (m.insertionSort r) := by
  induction h with
  | slnil => exact .refl _
  | cons a _ ih => exact ih.trans (List.sublist_orderedInsert a _)
  | cons_cons a _ ih =>
    exact List.Sublist.orderedInsert_sublist a ih (List.pairwise_insertionSort r _)

end

section
variable {α β : Type} {R : α → β → Prop} {r : α → α → Prop} {s : β → β → Prop} [DecidableRel r]
  [DecidableRel s] (hrs : ∀ a b c d, R a b → R c d → (r a c ↔ s b d))
include hrs

theorem forall₂_orderedInsert {a : α} {b : β} {l : List α} {m : List β} (hab : R a b)
    (h : List.Forall₂ R l m) : List.Forall₂ R (l.orderedInsert r a) (m.orderedInsert s b) := by
  induction h with
  | nil => exact .cons hab .nil
  | @cons c d l m hcd h ih =>
    by_cases hac : r a c
    · rw [List.orderedInsert_cons_of_le r l hac,
        List.orderedInsert_cons_of_le s m ((hrs a b c d hab hcd).mp hac)]
      exact .cons hab (.cons hcd h)
    · rw [List.orderedInsert_of_not_le r l hac,
        List.orderedInsert_of_not_le s m fun hbd => hac ((hrs a b c d hab hcd).mpr hbd)]
      exact .cons hcd ih

/-- Things with the same places come out at the same places. -/
theorem forall₂_insertionSort {l : List α} {m : List β} (h : List.Forall₂ R l m) :
    List.Forall₂ R (l.insertionSort r) (m.insertionSort s) := by
  induction h with
  | nil => exact .nil
  | cons hab _ ih => exact forall₂_orderedInsert hrs hab ih

end

/-- The order of places. -/
def Finding.NotAfter (f g : Finding) : Prop := f.start ≤ g.start

instance : DecidableRel Finding.NotAfter := fun f g =>
  inferInstanceAs (Decidable (f.start ≤ g.start))

instance : Std.Total Finding.NotAfter := ⟨fun f g => Nat.le_total f.start g.start⟩

instance : IsTrans Finding Finding.NotAfter := ⟨fun _ _ _ => Nat.le_trans⟩

theorem semantic_eq (p : Program) (o : Options) :
    semantic p o = (check p o).insertionSort Finding.NotAfter :=
  mergeSort_eq_insertionSort_of_stable Finding.NotAfter (check p o)

end SnippetLint.TypeScript
