import Mathlib.Tactic.SplitIfs
import SnippetLint.Proofs.TypeScript.Execution

/-! The statements right inside a statement, how deep they stand, and what their labels stand on. -/
namespace SnippetLint.TypeScript
open ParseTree

/-- The statements right inside a statement. -/
def parts (t : ParseTree) : List ParseTree :=
  if t.kind ∈ sequenceKinds then t.namedChildren
  else if t.kind ∈ bodyKinds then (role? "body" t).toList
  else if t.kind = "if_statement" then
    (role? "consequence" t).toList ++ (role? "alternative" t).toList
  else if t.kind = "try_statement" then
    (role? "body" t).toList ++ (handlerBody? t).toList ++ (finalizerBody? t).toList
  else if t.kind = "switch_statement" then
    (clauses? t).elim [] fun cs => (clauseStatements cs).filter named
  else []

/-- Statements stand at most `n` levels deep in the statement. -/
def NestedWithin : ℕ → ParseTree → Prop
  | 0, t => parts t = []
  | n + 1, t => ∀ s ∈ parts t, NestedWithin n s

instance decidableNestedWithin : ∀ (n : ℕ) (t : ParseTree), Decidable (NestedWithin n t)
  | 0, t => inferInstanceAs (Decidable (parts t = []))
  | n + 1, t =>
    have := decidableNestedWithin n
    inferInstanceAs (Decidable (∀ s ∈ parts t, NestedWithin n s))

/-- Unlabelled jumps bind to it. -/
def bindsJumps (t : ParseTree) : Bool := loopKinds.contains t.kind || t.kind == "switch_statement"

/-- Of the labels around the part `s` of `t`, those that stand on neither a loop nor a `switch`;
`astray` are those around `t`. -/
def astrayIn (source : List Char) (astray : List (List Char)) (t s : ParseTree) :
    List (List Char) :=
  if t.kind = "labeled_statement" then
    (label? source t).elim astray fun label =>
      if bindsJumps s then astray.filter (· != label) else label :: astray
  else astray

/-- No `break` names a label that is astray. -/
inductive WellAimed (source : List Char) : List (List Char) → ParseTree → Prop
  | intro {astray : List (List Char)} {t : ParseTree}
      (hb : t.kind = "break_statement" → ∀ label, label? source t = some label → label ∉ astray)
      (hs : ∀ s ∈ parts t, WellAimed source (astrayIn source astray t s) s) :
      WellAimed source astray t

variable {source : List Char} {t s : ParseTree}

theorem WellAimed.of_parts_eq {ps : List ParseTree} (hp : parts t = ps)
    (hs : ∀ s ∈ ps, WellAimed source (astrayIn source [] t s) s) : WellAimed source [] t := by
  refine .intro (fun _ _ _ => List.not_mem_nil) ?_
  rw [hp]
  exact hs

theorem role?_eq_some {field : String} :
    role? field t = some s ↔ t.child? field = some s ∧ s.named = true := by
  unfold role?
  rw [Option.filter_eq_some_iff]

theorem mem_children_of_child? {field : String} (h : t.child? field = some s) :
    s ∈ t.children :=
  List.mem_of_find?_eq_some h

theorem clauseBody?_eq_some {field kind : String} :
    clauseBody? field kind t = some s ↔
      ∃ r, t.child? field = some r ∧ r.named = true ∧ r.kind = kind ∧ r.child? "body" = some s ∧
        s.named = true := by
  unfold clauseBody?
  simp only [Option.bind_eq_some_iff, Option.filter_eq_some_iff, role?_eq_some, beq_iff_eq,
    and_assoc]

theorem clauses?_eq_some {cs : List ParseTree} :
    clauses? t = some cs ↔
      ∃ b, t.child? "body" = some b ∧ b.named = true ∧ b.kind = "switch_body" ∧
        (∀ c ∈ b.namedChildren, c.kind ∈ clauseKinds ++ passedOverKinds) ∧
        b.namedChildren = cs := by
  unfold clauses?
  simp only [Option.map_eq_some_iff, Option.filter_eq_some_iff, role?_eq_some, Bool.and_eq_true,
    beq_iff_eq, List.all_eq_true, List.contains_iff_mem, and_assoc]

theorem parts_of_sequence (hk : t.kind ∈ sequenceKinds) : parts t = t.namedChildren := by
  unfold parts
  rw [if_pos hk]

theorem parts_of_body (hk : t.kind ∈ bodyKinds) : parts t = (role? "body" t).toList := by
  have hs : ∀ k ∈ bodyKinds, k ∉ sequenceKinds := by decide
  unfold parts
  rw [if_neg (hs _ hk), if_pos hk]

theorem parts_if (hk : t.kind = "if_statement") :
    parts t = (role? "consequence" t).toList ++ (role? "alternative" t).toList := by
  unfold parts
  rw [hk]
  rfl

theorem parts_try (hk : t.kind = "try_statement") :
    parts t =
      (role? "body" t).toList ++ (handlerBody? t).toList ++ (finalizerBody? t).toList := by
  unfold parts
  rw [hk]
  rfl

theorem parts_switch (hk : t.kind = "switch_statement") :
    parts t = (clauses? t).elim [] fun cs => (clauseStatements cs).filter named := by
  unfold parts
  rw [hk]
  rfl

theorem mem_controlKinds_of_mem_parts (hs : s ∈ parts t) : t.kind ∈ controlKinds := by
  unfold controlKinds
  unfold parts at hs
  split_ifs at hs with h₁ h₂ h₃ h₄ h₅
  · simp [h₁]
  · simp [h₂]
  · simp [h₃]
  · simp [h₄]
  · simp [h₅]
  · exact absurd hs List.not_mem_nil

theorem mem_parts_body (hk : t.kind ∈ bodyKinds) (hs : role? "body" t = some s) :
    s ∈ parts t := by
  rw [parts_of_body hk]
  exact Option.mem_toList.mpr hs

theorem mem_parts_if (hk : t.kind = "if_statement")
    (hs : role? "consequence" t = some s ∨ role? "alternative" t = some s) : s ∈ parts t := by
  rw [parts_if hk]
  simpa using hs

theorem mem_parts_try (hk : t.kind = "try_statement")
    (hs : role? "body" t = some s ∨ handlerBody? t = some s ∨ finalizerBody? t = some s) :
    s ∈ parts t := by
  rw [parts_try hk]
  simpa using hs

theorem mem_parts_clause {cs es : List ParseTree} (hk : t.kind = "switch_statement")
    (hcs : clauses? t = some (cs ++ es)) (hs : s ∈ clauseStatements es) (hn : s.named = true) :
    s ∈ parts t := by
  rw [parts_switch hk, hcs]
  refine List.mem_filter.mpr ⟨?_, hn⟩
  unfold clauseStatements at hs ⊢
  rw [List.flatMap_append]
  exact List.mem_append_right _ hs

theorem loopKinds_subset : ∀ k ∈ loopKinds, k ∈ bodyKinds := by decide

theorem bindsJumps_of_loop (hk : t.kind ∈ loopKinds) : bindsJumps t = true := by
  unfold bindsJumps
  simp [hk]

theorem mem_astrayIn {label : List Char} {astray : List (List Char)} (hm : label ∈ astray)
    (hl : t.kind = "labeled_statement" → label? source t ≠ some label) :
    label ∈ astrayIn source astray t s := by
  unfold astrayIn
  by_cases hk : t.kind = "labeled_statement"
  · rw [if_pos hk]
    cases ht : label? source t with
    | none => exact hm
    | some other =>
      have hne : label ≠ other := by
        rintro rfl
        exact hl hk ht
      dsimp only [Option.elim]
      split_ifs
      · exact List.mem_filter.mpr ⟨hm, bne_iff_ne.mpr hne⟩
      · exact List.mem_cons_of_mem _ hm
  · rw [if_neg hk]
    exact hm

end SnippetLint.TypeScript
