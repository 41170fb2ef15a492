import Mathlib.Data.List.Nodup
import SnippetLint.Files.Tree
import SnippetLint.Proofs.Files.Path

/-! Walking through a tree of files. What a walk comes to is told by the names on the way there,
and it comes to nothing twice. -/
namespace SnippetLint.FileTree

/-- The names lead from the first tree down to the second. -/
inductive Leads : FileTree → List String → FileTree → Prop
  | here (t : FileTree) : Leads t [] t
  | into {entries : List (String × FileTree)} {name : String} {sub s : FileTree}
      {steps : List String} (hm : (name, sub) ∈ entries) (hs : Leads sub steps s) :
      Leads (.folder entries) (name :: steps) s

/-- Every folder has each name once, and only names that a file can have. -/
structure Proper (t : FileTree) : Prop where
  distinct : ∀ {steps entries}, Leads t steps (.folder entries) → (entries.map Prod.fst).Nodup
  named : ∀ {steps entries}, Leads t steps (.folder entries) →
    ∀ name ∈ entries.map Prod.fst, Path.IsFileName name

variable {skips : String → Bool} {t s sub : FileTree} {entries : List (String × FileTree)}
  {name : String} {steps : List String}

theorem leads_nil_iff : Leads t [] s ↔ s = t := by
  constructor
  · rintro ⟨⟩
    rfl
  · rintro rfl
    exact .here s

theorem leads_folder_cons_iff : Leads (.folder entries) (name :: steps) s ↔
    ∃ sub, (name, sub) ∈ entries ∧ Leads sub steps s := by
  constructor
  · rintro (_ | ⟨hm, hs⟩)
    exact ⟨_, hm, hs⟩
  · rintro ⟨sub, hm, hs⟩
    exact .into hm hs

theorem Leads.isFolder_of_cons (h : Leads t (name :: steps) s) : t.isFolder = true := by
  cases h
  rfl

theorem Proper.of_mem (h : Proper (.folder entries)) (hm : (name, sub) ∈ entries) : Proper sub where
  distinct hs := h.distinct (.into hm hs)
  named hs := h.named (.into hm hs)

theorem proper_of_forall_ne (h : ∀ entries, t ≠ .folder entries) : Proper t := by
  have hno {steps : List String} {entries : List (String × FileTree)} :
      ¬ Leads t steps (.folder entries) := by
    intro hs
    cases hs with
    | here => exact h entries rfl
    | @into inside => exact h inside rfl
  exact ⟨fun hs => absurd hs hno, fun hs => absurd hs hno⟩

theorem proper_folder_iff : Proper (.folder entries) ↔ (entries.map Prod.fst).Nodup ∧
    (∀ name ∈ entries.map Prod.fst, Path.IsFileName name) ∧ ∀ e ∈ entries, Proper e.2 := by
  refine ⟨fun h => ⟨h.distinct (.here _), h.named (.here _), fun _ hm => h.of_mem hm⟩, ?_⟩
  rintro ⟨hdistinct, hnamed, hsub⟩
  constructor
  · rintro steps inside (_ | ⟨hm, hs⟩)
    · exact hdistinct
    · exact (hsub _ hm).distinct hs
  · rintro steps inside (_ | ⟨hm, hs⟩)
    · exact hnamed
    · exact (hsub _ hm).named hs

theorem Proper.isFileName_of_leads (h : Proper t) (hs : Leads t steps s) :
    ∀ name ∈ steps, Path.IsFileName name := by
  induction hs with
  | here => exact fun _ hm => absurd hm List.not_mem_nil
  | @into entries name sub s steps hm hs ih =>
    refine List.forall_mem_cons.mpr ⟨?_, ih (h.of_mem hm)⟩
    exact h.named (.here _) name (List.mem_map.mpr ⟨_, hm, rfl⟩)

/-- What the walk comes to in a folder lies in one of the entries that it enters. -/
theorem mem_leavesOf_iff : (steps, s) ∈ leavesOf skips entries ↔ ∃ name sub rest,
    steps = name :: rest ∧ (name, sub) ∈ entries ∧ (sub.isFolder = true → skips name = false) ∧
      (rest, s) ∈ leaves skips sub := by
  induction entries with
  | nil => simp [leavesOf]
  | cons entry entries ih =>
    obtain ⟨name, sub⟩ := entry
    have hentry : (steps, s) ∈ (if sub.isFolder && skips name then []
        else (leaves skips sub).map fun l => (name :: l.1, l.2)) ↔
        ∃ rest, steps = name :: rest ∧ (sub.isFolder = true → skips name = false) ∧
          (rest, s) ∈ leaves skips sub := by
      cases hfolder : sub.isFolder <;> cases hskip : skips name <;>
        simp [eq_comm, and_comm]
    rw [leavesOf, List.mem_append, hentry, ih]
    constructor
    · rintro (⟨rest, hsteps, hskip, hm⟩ | ⟨other, sub', rest, hsteps, hmem, hm⟩)
      · exact ⟨name, sub, rest, hsteps, List.mem_cons_self, hskip, hm⟩
      · exact ⟨other, sub', rest, hsteps, List.mem_cons_of_mem _ hmem, hm⟩
    · rintro ⟨other, sub', rest, hsteps, hmem, hskip, hm⟩
      rcases List.mem_cons.mp hmem with heq | hmem
      · obtain ⟨rfl, rfl⟩ := Prod.mk.inj heq
        exact .inl ⟨rest, hsteps, hskip, hm⟩
      · exact .inr ⟨other, sub', rest, hsteps, hmem, hskip, hm⟩

/-- Nothing that the walk would have to skip stands on the way: neither a folder above what the
steps lead to nor, if that is a folder, it itself. -/
structure Passes (skips : String → Bool) (steps : List String) (s : FileTree) : Prop where
  above : ∀ name ∈ steps.dropLast, skips name = false
  last : s.isFolder = true → ∀ name ∈ steps, skips name = false

theorem passes_cons_iff (h : Leads sub steps s) : Passes skips (name :: steps) s ↔
    (sub.isFolder = true → skips name = false) ∧ Passes skips steps s := by
  cases steps with
  | nil =>
    obtain rfl := leads_nil_iff.mp h
    refine ⟨fun hp => ⟨fun hs => hp.last hs name List.mem_cons_self, ?_⟩, fun hp => ?_⟩
    · exact ⟨by simp, by simp⟩
    · exact ⟨by simp, fun hs => by simpa using hp.1 hs⟩
  | cons next steps =>
    have hsub : sub.isFolder = true := h.isFolder_of_cons
    constructor
    · intro hp
      obtain ⟨hname, habove⟩ := List.forall_mem_cons.mp hp.above
      exact ⟨fun _ => hname, habove, fun hs => (List.forall_mem_cons.mp (hp.last hs)).2⟩
    · rintro ⟨hname, hp⟩
      exact ⟨List.forall_mem_cons.mpr ⟨hname hsub, hp.above⟩,
        fun hs => List.forall_mem_cons.mpr ⟨hname hsub, hp.last hs⟩⟩

/-- A walk comes to its end here: at a file, or a folder that cannot be looked into. -/
def isLeaf : FileTree → Bool
  | file _ | lockedFile _ | lockedFolder _ => true
  | folder _ | special _ => false

theorem isLeaf_of_isFile (h : t.isFile = true) : t.isLeaf = true := by
  cases t with
  | file | lockedFile => rfl
  | folder | lockedFolder | special => cases h

theorem isFolder_eq_false_of_isFile (h : t.isFile = true) : t.isFolder = false := by
  cases t with
  | file | lockedFile => rfl
  | folder | lockedFolder | special => cases h

/-- The walk comes to every leaf on a way that it does not skip. -/
theorem mem_leaves_iff : (steps, s) ∈ leaves skips t ↔
    Leads t steps s ∧ Passes skips steps s ∧ s.isLeaf = true := by
  induction steps generalizing t with
  | nil =>
    have hpasses : Passes skips [] s := ⟨by simp, by simp⟩
    cases t with
    | folder entries =>
      simp only [leaves, mem_leavesOf_iff, leads_nil_iff, hpasses, true_and]
      constructor
      · rintro ⟨name, sub, rest, hsteps, -⟩
        cases hsteps
      · rintro ⟨rfl, hleaf⟩
        cases hleaf
    | special content =>
      simp only [leaves, List.not_mem_nil, leads_nil_iff, false_iff]
      rintro ⟨rfl, -, hleaf⟩
      cases hleaf
    | file bytes | lockedFile why | lockedFolder why =>
      simp only [leaves, List.mem_singleton, Prod.mk.injEq, true_and, leads_nil_iff, hpasses]
      refine ⟨?_, fun h => h.1⟩
      rintro rfl
      exact ⟨rfl, rfl⟩
  | cons name steps ih =>
    cases t with
    | folder entries =>
      simp only [leaves, mem_leavesOf_iff, leads_folder_cons_iff]
      constructor
      · rintro ⟨other, sub, rest, hsteps, hm, hskip, hrest⟩
        obtain ⟨rfl, rfl⟩ := List.cons.inj hsteps
        obtain ⟨hs, hp, hfolder⟩ := ih.mp hrest
        exact ⟨⟨sub, hm, hs⟩, (passes_cons_iff hs).mpr ⟨hskip, hp⟩, hfolder⟩
      · rintro ⟨⟨sub, hm, hs⟩, hp, hfolder⟩
        obtain ⟨hskip, hrest⟩ := (passes_cons_iff hs).mp hp
        exact ⟨name, sub, steps, rfl, hm, hskip, ih.mpr ⟨hs, hrest, hfolder⟩⟩
    | special content =>
      simp only [leaves, List.not_mem_nil, false_iff]
      rintro ⟨⟨⟩, -⟩
    | file bytes | lockedFile why | lockedFolder why =>
      simp only [leaves, List.mem_singleton, Prod.mk.injEq, reduceCtorEq, false_and, false_iff]
      rintro ⟨⟨⟩, -⟩

mutual

theorem pairwise_leaves : ∀ t : FileTree, Proper t →
    (leaves skips t).Pairwise (·.1 ≠ ·.1)
  | folder entries, h => pairwise_leavesOf entries (h.distinct (.here _)) fun _ hm => h.of_mem hm
  | special _, _ => .nil
  | file _, _ | lockedFile _, _ | lockedFolder _, _ => List.pairwise_singleton _ _

theorem pairwise_leavesOf : ∀ entries : List (String × FileTree),
    (entries.map Prod.fst).Nodup → (∀ e ∈ entries, Proper e.2) →
      (leavesOf skips entries).Pairwise (·.1 ≠ ·.1)
  | [], _, _ => .nil
  | (name, t) :: entries, hnodup, hproper => by
    obtain ⟨hname, hrest⟩ := List.nodup_cons.mp hnodup
    obtain ⟨ht, hentries⟩ := List.forall_mem_cons.mp hproper
    rw [leavesOf]
    refine List.pairwise_append.mpr ⟨?_, pairwise_leavesOf entries hrest hentries, ?_⟩
    · split
      · exact .nil
      · exact (pairwise_leaves t ht).map _ fun a b hab => by simpa using hab
    · rintro a ha ⟨steps, s⟩ hb heq
      obtain ⟨other, sub, rest, hsteps, hm, -⟩ := mem_leavesOf_iff.mp hb
      split at ha
      · cases ha
      · obtain ⟨l, -, rfl⟩ := List.mem_map.mp ha
        obtain ⟨rfl, -⟩ := List.cons.inj (heq.trans hsteps)
        exact hname (List.mem_map.mpr ⟨_, hm, rfl⟩)

end

end SnippetLint.FileTree
