import Mathlib.Data.List.Forall2
import Mathlib.Data.List.Nodup
import Mathlib.Data.Option.Basic
import SnippetLint.Json.Value

/-! JSON values that differ in the order of members alone. What is looked up by name in an object
without repetitions does not hang on that order. -/
namespace SnippetLint.JsonValue

/-- The second value is the first with the members of its objects in some order. -/
inductive Rearranged : JsonValue → JsonValue → Prop
  | refl (v : JsonValue) : Rearranged v v
  | array {vs ws : List JsonValue} (items : List.Forall₂ Rearranged vs ws) :
      Rearranged (.array vs) (.array ws)
  | object {ms ns os : List (String × JsonValue)} (names : ms.map Prod.fst = ns.map Prod.fst)
      (values : List.Forall₂ Rearranged (ms.map Prod.snd) (ns.map Prod.snd))
      (order : ns.Perm os) : Rearranged (.object ms) (.object os)

theorem find?_cons (name : String) (m : String × JsonValue) (ms : List (String × JsonValue)) :
    find? name (m :: ms) = if name = m.1 then some m.2 else find? name ms := by
  obtain ⟨key, v⟩ := m
  rw [find?, List.lookup_cons]
  by_cases h : name = key
  · rw [if_pos h, beq_iff_eq.mpr h]
  · rw [if_neg h, beq_false_of_ne h, find?]

theorem find?_append (name : String) (ms ns : List (String × JsonValue)) :
    find? name (ms ++ ns) = (find? name ms).or (find? name ns) := List.lookup_append

theorem find?_of_perm {ms ns : List (String × JsonValue)} (h : ms.Perm ns)
    (hkeys : (ms.map Prod.fst).Nodup) (name : String) : find? name ms = find? name ns := by
  induction h with
  | nil => rfl
  | cons m _ ih =>
    rw [find?_cons, find?_cons, ih (List.nodup_cons.mp hkeys).2]
  | swap m n ms =>
    have hne : n.1 ≠ m.1 := fun he => (List.nodup_cons.mp hkeys).1 (by simp [he])
    simp only [find?_cons]
    split_ifs with hn hm
    · exact absurd (hn.symm.trans hm) hne
    all_goals rfl
  | trans h _ ih₁ ih₂ =>
    exact (ih₁ hkeys).trans (ih₂ ((h.map Prod.fst).nodup_iff.mp hkeys))

theorem rel_find?_of_forall₂ {ms ns : List (String × JsonValue)}
    (hnames : ms.map Prod.fst = ns.map Prod.fst)
    (hvalues : List.Forall₂ Rearranged (ms.map Prod.snd) (ns.map Prod.snd)) (name : String) :
    Option.Rel Rearranged (find? name ms) (find? name ns) := by
  induction ms generalizing ns with
  | nil =>
    rw [List.map_eq_nil_iff.mp hnames.symm]
    exact .none
  | cons m ms ih =>
    obtain ⟨n, ns, rfl⟩ := List.exists_cons_of_ne_nil (l := ns) fun h => by simp [h] at hnames
    rw [List.map_cons, List.map_cons, List.cons.injEq] at hnames
    rw [List.map_cons, List.map_cons, List.forall₂_cons] at hvalues
    rw [find?_cons, find?_cons, ← hnames.1]
    split_ifs
    · exact .some hvalues.1
    · exact ih hnames.2 hvalues.2

/-- Under each name is the same member, but for the order of members in it. -/
def SameMembers (ms ns : List (String × JsonValue)) : Prop :=
  ∀ name, Option.Rel Rearranged (find? name ms) (find? name ns)

namespace Rearranged

theorem eq_string {s : String} {v : JsonValue} (h : Rearranged (.string s) v) : v = .string s := by
  cases h
  rfl

theorem eq_nat {n : ℕ} {v : JsonValue} (h : Rearranged (nat n) v) : v = nat n := by
  cases h
  rfl

theorem exists_array {vs : List JsonValue} {v : JsonValue} (h : Rearranged (.array vs) v) :
    ∃ ws, v = .array ws ∧ List.Forall₂ Rearranged vs ws := by
  cases h with
  | refl => exact ⟨vs, rfl, List.forall₂_same.mpr fun w _ => .refl w⟩
  | array items => exact ⟨_, rfl, items⟩

theorem exists_object {ms : List (String × JsonValue)} {v : JsonValue}
    (h : Rearranged (.object ms) v) (hkeys : (ms.map Prod.fst).Nodup) :
    ∃ os, v = .object os ∧ SameMembers ms os := by
  cases h with
  | refl =>
    refine ⟨ms, rfl, fun name => ?_⟩
    cases find? name ms with
    | none => exact .none
    | some w => exact .some (.refl w)
  | @object _ ns os names values order =>
    refine ⟨os, rfl, fun name => ?_⟩
    rw [← find?_of_perm order (names ▸ hkeys)]
    exact rel_find?_of_forall₂ names values name

end Rearranged

/-- The value is read as `a`, whatever the order of members. -/
def Reads {α : Type} (read : JsonValue → Option α) (v : JsonValue) (a : α) : Prop :=
  ∀ w, Rearranged v w → read w = some a

theorem reads_string (s : String) : Reads string? (.string s) s := by
  intro w hw
  rw [hw.eq_string, string?]

theorem reads_nat {n : ℕ} (h : n < UInt64.size) : Reads word64? (nat n) n := by
  intro w hw
  rw [hw.eq_nat]
  exact if_pos h

variable {α : Type} {read : JsonValue → Option α} {ms ns : List (String × JsonValue)}

theorem SameMembers.exists_member {v : JsonValue} {a : α} (h : SameMembers ms ns) (name : String)
    (hv : find? name ms = some v) (hr : Reads read v a) :
    ∃ w, find? name ns = some w ∧ read w = some a := by
  have hrel := h name
  rw [hv] at hrel
  generalize find? name ns = found at hrel ⊢
  cases hrel with
  | some hw => exact ⟨_, rfl, hr _ hw⟩

theorem SameMembers.find?_eq_none (h : SameMembers ms ns) (name : String)
    (hv : find? name ms = none) :
    find? name ns = none := by
  have hrel := h name
  rw [hv] at hrel
  generalize find? name ns = found at hrel ⊢
  cases hrel
  rfl

end SnippetLint.JsonValue
