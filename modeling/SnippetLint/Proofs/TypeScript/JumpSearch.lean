import SnippetLint.Proofs.ParseTree.Sites
import SnippetLint.TypeScript.Completion

/-! What the search for jumps finds, in whatever order it looks: the jumps that leave the target
from below it, with no function and no class on the way. -/
namespace SnippetLint.TypeScript
open ParseTree

variable {target : Target} {inLoop inSwitch : Bool} {t n : ParseTree}
  {above way ts : List ParseTree}

mutual

/-- The node jumps out of the target, or one below it does. -/
def escapesFrom (target : Target) (inLoop inSwitch : Bool) : ParseTree → Bool
  | t@(node _ cs) =>
    leaves target inLoop inSwitch t ||
      (!(isFunction t || t.kind == "class_body") &&
        escapesFromAny target (inLoop || loopKinds.contains t.kind)
          (inSwitch || t.kind == "switch_statement") cs)

/-- Only named nodes count. -/
def escapesFromAny (target : Target) (inLoop inSwitch : Bool) : List ParseTree → Bool
  | [] => false
  | t :: ts =>
    (t.named && escapesFrom target inLoop inSwitch t) ||
      escapesFromAny target inLoop inSwitch ts

end

theorem escapesFrom_eq (target : Target) (inLoop inSwitch : Bool) (t : ParseTree) :
    escapesFrom target inLoop inSwitch t =
      (leaves target inLoop inSwitch t ||
        (!(isFunction t || t.kind == "class_body") &&
          escapesFromAny target (inLoop || loopKinds.contains t.kind)
            (inSwitch || t.kind == "switch_statement") t.children)) := by
  cases t
  rw [escapesFrom]
  rfl

theorem escapesFromAny_eq_any (target : Target) (inLoop inSwitch : Bool) (ts : List ParseTree) :
    escapesFromAny target inLoop inSwitch ts =
      (ts.filter named).any (escapesFrom target inLoop inSwitch) := by
  induction ts with
  | nil => rfl
  | cons t ts ih =>
    rw [escapesFromAny, ih, List.filter_cons]
    cases t.named <;> rfl

/-! ### The stack -/

namespace Pending

def escapes (target : Target) (p : Pending) : Bool :=
  escapesFrom target p.inLoop p.inSwitch p.tree

theorem any_below (target : Target) (p : Pending) :
    p.below.any (escapes target) =
      escapesFromAny target (p.inLoop || loopKinds.contains p.tree.kind)
        (p.inSwitch || p.tree.kind == "switch_statement") p.tree.children := by
  rw [escapesFromAny_eq_any, below, List.any_map]
  rfl

end Pending

/-- One of the nodes that wait escapes, each with the flags that it was put there with. -/
theorem escapesOfPending_eq_any (target : Target) (pending : List Pending) :
    escapesOfPending target pending = pending.any (Pending.escapes target) := by
  fun_induction escapesOfPending target pending with
  | case1 => rfl
  | case2 p rest hleaves =>
    rw [List.any_cons, Pending.escapes, escapesFrom_eq, hleaves]
    rfl
  | case3 p rest hleaves hclosed ih =>
    rw [List.any_cons, Pending.escapes, escapesFrom_eq, Bool.eq_false_iff.mpr hleaves, hclosed, ih]
    rfl
  | case4 p rest hleaves hclosed ih =>
    rw [ih, List.any_append, List.any_reverse, Pending.any_below, List.any_cons, Pending.escapes,
      escapesFrom_eq, Bool.eq_false_iff.mpr hleaves, Bool.eq_false_iff.mpr hclosed]
    rfl

theorem escapes_eq_escapesFromAny (target : Target) (t : ParseTree) :
    escapes target t = escapesFromAny target false false t.children := by
  rw [escapes, escapesOfPending_eq_any, List.any_reverse, List.any_map, escapesFromAny_eq_any]
  rfl

/-! ### The jumps that are found -/

/-- The search goes on below the node, if it comes to it. -/
structure IsEntered (n : ParseTree) : Prop where
  named : n.named = true
  function : n.kind ∉ functionKinds
  classBody : n.kind ≠ "class_body"

/-- The node jumps out of the target, with the nodes `way` between them. -/
inductive JumpsOut (n : ParseTree) (way : List ParseTree) : Target → Prop
  | breaks (target : Target) (kind : n.kind = "break_statement")
      (free : (n.child? "label").isSome = true ∨
        ∀ m ∈ way, m.kind ∉ loopKinds ∧ m.kind ≠ "switch_statement") : JumpsOut n way target
  | continues (kind : n.kind = "continue_statement")
      (free : (n.child? "label").isSome = true ∨ ∀ m ∈ way, m.kind ∉ loopKinds) :
      JumpsOut n way .switch

/-- The flags, which tell what stands on the way. -/
def overLoop (way : List ParseTree) : Bool := way.any fun m => loopKinds.contains m.kind

def overSwitch (way : List ParseTree) : Bool := way.any fun m => m.kind == "switch_statement"

theorem overLoop_eq_false : overLoop way = false ↔ ∀ m ∈ way, m.kind ∉ loopKinds := by
  simp [overLoop]

theorem overSwitch_eq_false : overSwitch way = false ↔ ∀ m ∈ way, m.kind ≠ "switch_statement" := by
  simp [overSwitch]

theorem leaves_iff :
    leaves target (overLoop way) (overSwitch way) n = true ↔ JumpsOut n way target := by
  unfold leaves
  dsimp only
  split_ifs with hbreak
  · rw [Bool.or_eq_true, Bool.not_eq_true', Bool.or_eq_false_iff, overLoop_eq_false,
      overSwitch_eq_false, ← forall₂_and]
    constructor
    · exact .breaks target (beq_iff_eq.mp hbreak)
    · rintro (⟨-, -, free⟩ | ⟨kind, -⟩)
      · exact free
      · rw [kind] at hbreak
        exact absurd hbreak (by decide)
  · rw [Bool.and_eq_true, Bool.and_eq_true, Bool.or_eq_true, Bool.not_eq_true',
      overLoop_eq_false, beq_iff_eq, beq_iff_eq]
    constructor
    · rintro ⟨⟨kind, rfl⟩, free⟩
      exact .continues kind free
    · rintro (⟨-, kind, -⟩ | ⟨kind, free⟩)
      · exact absurd (beq_iff_eq.mpr kind) hbreak
      · exact ⟨⟨kind, rfl⟩, free⟩

theorem isEntered_of_jumpsOut (h : JumpsOut n way target) (hn : n.named = true) : IsEntered n := by
  have hkinds : ∀ k ∈ ["break_statement", "continue_statement"],
      k ∉ functionKinds ∧ k ≠ "class_body" := by decide
  have hk : n.kind ∈ ["break_statement", "continue_statement"] := by
    cases h with
    | breaks _ kind => simp [kind]
    | continues kind => simp [kind]
  exact ⟨hn, (hkinds _ hk).1, (hkinds _ hk).2⟩

theorem isEntered_iff :
    IsEntered n ↔ n.named = true ∧ (isFunction n || n.kind == "class_body") = false := by
  rw [Bool.or_eq_false_iff, isFunction, List.contains_eq_mem, decide_eq_false_iff_not,
    beq_eq_false_iff_ne]
  exact ⟨fun h => ⟨h.named, h.function, h.classBody⟩, fun h => ⟨h.1, h.2.1, h.2.2⟩⟩

theorem escapesFromAny_eq_true :
    escapesFromAny target inLoop inSwitch ts = true ↔
      ∃ c ∈ ts, (c.named && escapesFrom target inLoop inSwitch c) = true := by
  simp [escapesFromAny_eq_any]

/-- The tree is a jump out of the target or has one below it that the search comes to. The nodes
`way` are between the tree and the target. -/
def JumpUnder (target : Target) (above way : List ParseTree) (t : ParseTree) : Prop :=
  ∃ n inner, (⟨n, inner ++ above⟩ : Site) ∈ sitesUnder above t ∧ (∀ m ∈ n :: inner, IsEntered m) ∧
    JumpsOut n (inner ++ way) target

/-- Below a node the way is longer by the node itself. -/
theorem jumpUnder_iff :
    JumpUnder target above way t ↔ t.named = true ∧ (JumpsOut t way target ∨
      (isFunction t || t.kind == "class_body") = false ∧
        ∃ c ∈ t.children, JumpUnder target (t :: above) (t :: way) c) := by
  constructor
  · rintro ⟨n, inner, hsite, hway, hjump⟩
    rcases mem_sitesUnder.mp hsite with heq | ⟨c, hc, hsite⟩
    · obtain ⟨rfl, hinner⟩ := Site.mk.inj heq
      obtain rfl : inner = [] := List.append_left_eq_self.mp hinner
      exact ⟨(hway n List.mem_cons_self).named, .inl hjump⟩
    · obtain ⟨mid, hmid⟩ := suffix_above hsite
      obtain rfl : inner = mid ++ [t] := by
        rw [List.append_cons] at hmid
        exact (List.append_cancel_right hmid).symm
      rw [← List.append_cons] at hsite hjump
      rw [← List.cons_append] at hway
      obtain ⟨hn, hentered⟩ := isEntered_iff.mp
        (hway t (List.mem_append_right _ (List.mem_singleton_self t)))
      exact ⟨hn, .inr ⟨hentered, c, hc, n, mid, hsite,
        fun m hm => hway m (List.mem_append_left _ hm), hjump⟩⟩
  · rintro ⟨hn, hjump | ⟨hentered, c, hc, n, inner, hsite, hway, hjump⟩⟩
    · refine ⟨t, [], mem_sitesUnder.mpr (.inl rfl), fun m hm => ?_, hjump⟩
      obtain rfl := List.mem_singleton.mp hm
      exact isEntered_of_jumpsOut hjump hn
    · rw [List.append_cons] at hsite hjump
      refine ⟨n, inner ++ [t], mem_sitesUnder.mpr (.inr ⟨c, hc, hsite⟩), fun m hm => ?_, hjump⟩
      rw [← List.cons_append, List.mem_append, List.mem_singleton] at hm
      rcases hm with hm | rfl
      · exact hway m hm
      · exact isEntered_iff.mpr ⟨hn, hentered⟩

/-- With the flags of the way to a node, the search from there finds the jumps from there on. -/
theorem escapesFrom_iff (target : Target) (above way : List ParseTree) (t : ParseTree) :
    (t.named && escapesFrom target (overLoop way) (overSwitch way) t) = true ↔
      JumpUnder target above way t := by
  induction t using induction_on_children generalizing above way with
  | h l cs ih =>
    have hbelow : escapesFromAny target (overLoop way || loopKinds.contains (node l cs).kind)
          (overSwitch way || (node l cs).kind == "switch_statement") (node l cs).children = true ↔
        ∃ c ∈ (node l cs).children, JumpUnder target (node l cs :: above) (node l cs :: way) c := by
      rw [Bool.or_comm, Bool.or_comm (overSwitch way), escapesFromAny_eq_true]
      exact exists_congr fun c => and_congr_right fun hc => ih c hc _ (node l cs :: way)
    rw [Bool.and_eq_true, escapesFrom_eq, Bool.or_eq_true, leaves_iff, Bool.and_eq_true,
      Bool.not_eq_true', hbelow, jumpUnder_iff]

/-- The search finds a jump if and only if there is one below the target that leaves it, reached
through named nodes that are no functions and in no class. A `break` without a label leaves the
nearest loop or `switch`, a `continue` without one the nearest loop alone, and one with a label is
taken to leave all of them. -/
theorem escapes_iff_exists_jump (target : Target) (t : ParseTree) :
    escapes target t = true ↔ ∃ n way, (⟨n, way ++ [t]⟩ : Site) ∈ t.sites ∧
      (∀ m ∈ n :: way, IsEntered m) ∧ JumpsOut n way target := by
  have hchild : ∀ c : ParseTree,
      (c.named && escapesFrom target false false c) = true ↔ JumpUnder target [t] [] c :=
    escapesFrom_iff target [t] []
  rw [escapes_eq_escapesFromAny, escapesFromAny_eq_true]
  constructor
  · rintro ⟨c, hc, hfound⟩
    obtain ⟨n, way, hsite, hway, hjump⟩ := (hchild c).mp hfound
    rw [List.append_nil] at hjump
    exact ⟨n, way, mem_sitesUnder.mpr (.inr ⟨c, hc, hsite⟩), hway, hjump⟩
  · rintro ⟨n, way, hsite, hway, hjump⟩
    rcases mem_sitesUnder.mp hsite with heq | ⟨c, hc, hsite⟩
    · exact absurd (Site.mk.inj heq).2 (by simp)
    · refine ⟨c, hc, (hchild c).mpr ⟨n, way, hsite, hway, ?_⟩⟩
      rwa [List.append_nil]

end SnippetLint.TypeScript
