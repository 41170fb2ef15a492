import SnippetLint.Proofs.ParseTree.Nodes
import SnippetLint.Proofs.TypeScript.ReturnPaths

/-! Statements without jumps, labels and comments. Nothing escapes from them, and they end in no
jump. -/
namespace SnippetLint.TypeScript
open ParseTree

variable {source : List Char} {t s : ParseTree}

def jumpKinds : List String :=
  ["break_statement", "continue_statement", "labeled_statement", "comment"]

/-- What the grammar says of a node, where there are no jumps, labels, comments and errors. -/
structure Regular (t : ParseTree) : Prop where
  noJump : t.kind ∉ jumpKinds
  otherwise : t.kind = "else_clause" → t.namedChildren.length = 1
  choice : t.kind = "if_statement" → (role? "consequence" t).isSome ∧
    ((t.child? "alternative").isSome → (role? "alternative" t).isSome)
  guarded : t.kind = "try_statement" → (role? "body" t).isSome ∧
    ((t.child? "handler").isSome → (handlerBody? t).isSome) ∧
    ((t.child? "finalizer").isSome → (finalizerBody? t).isSome)
  clauses : t.kind = "switch_statement" → ∃ cs ∈ clauses? t, ∀ c ∈ cs, c.kind ∈ clauseKinds
  statements : t.kind ∈ clauseKinds → ∀ s ∈ t.childrenIn "body", s.named = true
  body : t.kind ∈ bodyKinds → (role? "body" t).isSome
  noCondition : t.kind = "for_in_statement" → (t.child? "condition").isNone
  parenthesized : t.kind = "parenthesized_expression" →
    ∀ s ∈ t.namedChildren.tail, s.kind = "type_annotation"

instance (t : ParseTree) : Decidable (Regular t) :=
  decidable_of_iff
    (t.kind ∉ jumpKinds ∧ (t.kind = "else_clause" → t.namedChildren.length = 1) ∧
      (t.kind = "if_statement" → (role? "consequence" t).isSome ∧
        ((t.child? "alternative").isSome → (role? "alternative" t).isSome)) ∧
      (t.kind = "try_statement" → (role? "body" t).isSome ∧
        ((t.child? "handler").isSome → (handlerBody? t).isSome) ∧
        ((t.child? "finalizer").isSome → (finalizerBody? t).isSome)) ∧
      (t.kind = "switch_statement" → ∃ cs ∈ clauses? t, ∀ c ∈ cs, c.kind ∈ clauseKinds) ∧
      (t.kind ∈ clauseKinds → ∀ s ∈ t.childrenIn "body", s.named = true) ∧
      (t.kind ∈ bodyKinds → (role? "body" t).isSome) ∧
      (t.kind = "for_in_statement" → (t.child? "condition").isNone) ∧
      (t.kind = "parenthesized_expression" →
        ∀ s ∈ t.namedChildren.tail, s.kind = "type_annotation"))
    ⟨fun ⟨h₁, h₂, h₃, h₄, h₅, h₆, h₇, h₈, h₉⟩ => ⟨h₁, h₂, h₃, h₄, h₅, h₆, h₇, h₈, h₉⟩,
      fun ⟨h₁, h₂, h₃, h₄, h₅, h₆, h₇, h₈, h₉⟩ => ⟨h₁, h₂, h₃, h₄, h₅, h₆, h₇, h₈, h₉⟩⟩

/-- The tree is regular throughout. -/
def JumpFree (t : ParseTree) : Prop := ∀ n ∈ t.nodes, Regular n

instance (t : ParseTree) : Decidable (JumpFree t) :=
  inferInstanceAs (Decidable (∀ n ∈ t.nodes, Regular n))

namespace JumpFree

theorem regular (h : JumpFree t) : Regular t := h t (mem_nodes_self t)

theorem of_mem_nodes (h : JumpFree t) (hs : s ∈ t.nodes) : JumpFree s :=
  fun n hn => h n (mem_nodes_trans hs hn)

theorem of_child (h : JumpFree t) (hs : s ∈ t.children) : JumpFree s :=
  h.of_mem_nodes (mem_nodes_of_child hs (mem_nodes_self s))

theorem of_child? {field : String} (h : JumpFree t) (hs : t.child? field = some s) : JumpFree s :=
  h.of_child (mem_children_of_child? hs)

theorem of_role? {field : String} (h : JumpFree t) (hs : role? field t = some s) :
    JumpFree s :=
  h.of_child? (role?_eq_some.mp hs).1

theorem of_clauseBody? {field kind : String} (h : JumpFree t)
    (hs : clauseBody? field kind t = some s) : JumpFree s := by
  obtain ⟨r, hr, -, -, hc, -⟩ := clauseBody?_eq_some.mp hs
  exact (h.of_child? hr).of_child? hc

theorem of_clauses? {before after : List ParseTree} (h : JumpFree t)
    (hcs : clauses? t = some (before ++ after)) : ∀ s ∈ clauseStatements after, JumpFree s := by
  intro s hs
  obtain ⟨b, hb, -, -, -, hcb⟩ := clauses?_eq_some.mp hcs
  obtain ⟨c, hc, hsc⟩ := List.mem_flatMap.mp hs
  have hm : c ∈ b.namedChildren := by
    rw [hcb]
    exact List.mem_append_right _ hc
  exact ((h.of_child? hb).of_child (List.mem_filter.mp hm).1).of_child (List.mem_filter.mp hsc).1

end JumpFree

/-- A part stands below the statement. -/
theorem exists_child_of_mem_parts (hs : s ∈ parts t) : ∃ c ∈ t.children, s ∈ c.nodes := by
  have hrole : ∀ {field : String}, s ∈ (role? field t).toList → ∃ c ∈ t.children, s ∈ c.nodes := by
    intro field hs
    obtain ⟨hc, -⟩ := role?_eq_some.mp (Option.mem_toList.mp hs)
    exact ⟨s, mem_children_of_child? hc, mem_nodes_self s⟩
  have hclause : ∀ {field kind : String}, s ∈ (clauseBody? field kind t).toList →
      ∃ c ∈ t.children, s ∈ c.nodes := by
    intro field kind hs
    obtain ⟨r, hr, -, -, hc, -⟩ := clauseBody?_eq_some.mp (Option.mem_toList.mp hs)
    exact ⟨r, mem_children_of_child? hr,
      mem_nodes_of_child (mem_children_of_child? hc) (mem_nodes_self s)⟩
  unfold parts at hs
  split_ifs at hs
  · exact ⟨s, (List.mem_filter.mp hs).1, mem_nodes_self s⟩
  · exact hrole hs
  · exact (List.mem_append.mp hs).elim hrole hrole
  · rcases List.mem_append.mp hs with hs | hs
    · exact (List.mem_append.mp hs).elim hrole hclause
    · exact hclause hs
  · cases hcs : clauses? t with
    | none =>
      rw [hcs] at hs
      exact absurd hs List.not_mem_nil
    | some cs =>
      rw [hcs] at hs
      obtain ⟨b, hb, -, -, -, rfl⟩ := clauses?_eq_some.mp hcs
      obtain ⟨c, hc, hs⟩ := List.mem_flatMap.mp (List.mem_filter.mp hs).1
      have hsc : s ∈ c.nodes := mem_nodes_of_child (List.mem_filter.mp hs).1 (mem_nodes_self s)
      exact ⟨b, mem_children_of_child? hb, mem_nodes_of_child (List.mem_filter.mp hc).1 hsc⟩
  · exact absurd hs List.not_mem_nil

theorem mem_nodes_of_mem_parts (hs : s ∈ parts t) : s ∈ t.nodes := by
  obtain ⟨c, hc, hs⟩ := exists_child_of_mem_parts hs
  exact mem_nodes_of_child hc hs

/-- Statements stand no deeper in a tree than it has nodes. -/
theorem nestedWithin_of_size_le {n : ℕ} (h : t.size ≤ n) : NestedWithin n t := by
  induction n generalizing t with
  | zero =>
    rw [size_eq] at h
    omega
  | succ n ih =>
    intro s hs
    obtain ⟨c, hc, hs⟩ := exists_child_of_mem_parts hs
    have hcs := size_le_of_mem_nodes hs
    have hct := size_lt_of_child hc
    exact ih (by omega)

theorem JumpFree.of_mem_parts (h : JumpFree t) (hs : s ∈ parts t) : JumpFree s :=
  h.of_mem_nodes (mem_nodes_of_mem_parts hs)

theorem JumpFree.kind_ne (h : JumpFree t) {kind : String} (hk : kind ∈ jumpKinds) :
    t.kind ≠ kind := by
  rintro rfl
  exact h.regular.noJump hk

theorem JumpFree.wellAimed {n : ℕ} (h : JumpFree t) (hn : NestedWithin n t) :
    WellAimed source [] t := by
  have hastray : ∀ s, astrayIn source [] t s = [] :=
    fun _ => if_neg (h.kind_ne (by decide))
  induction n generalizing t with
  | zero => exact .of_parts_eq hn (List.forall_mem_nil _)
  | succ n ih =>
    refine .of_parts_eq rfl fun s hs => ?_
    rw [hastray s]
    have hs' := h.of_mem_parts hs
    exact ih hs' (hn s hs) fun _ => if_neg (hs'.kind_ne (by decide))

mutual

theorem escapesFrom_of_jumpFree (target : Target) (inLoop inSwitch : Bool) :
    ∀ t, JumpFree t → escapesFrom target inLoop inSwitch t = false
  | node l cs => by
    intro h
    have hbreak : (node l cs).kind ≠ "break_statement" := h.kind_ne (by decide)
    have hcontinue : (node l cs).kind ≠ "continue_statement" := h.kind_ne (by decide)
    have hleaves : leaves target inLoop inSwitch (node l cs) = false := by
      simp [leaves, hbreak, hcontinue]
    have hbelow : ∀ c ∈ cs, JumpFree c := fun c hc => h.of_child hc
    rw [escapesFrom, hleaves, escapesFromAny_of_jumpFree _ _ _ cs hbelow, Bool.and_false]
    rfl

theorem escapesFromAny_of_jumpFree (target : Target) (inLoop inSwitch : Bool) :
    ∀ ts, (∀ t ∈ ts, JumpFree t) → escapesFromAny target inLoop inSwitch ts = false
  | [] => fun _ => rfl
  | t :: ts => by
    intro h
    obtain ⟨ht, hts⟩ := List.forall_mem_cons.mp h
    rw [escapesFromAny, escapesFrom_of_jumpFree _ _ _ t ht, escapesFromAny_of_jumpFree _ _ _ ts hts,
      Bool.and_false]
    rfl

end

theorem escapes_of_jumpFree (h : JumpFree t) (target : Target) : escapes target t = false := by
  rw [escapes_eq_escapesFromAny]
  exact escapesFromAny_of_jumpFree target false false t.children fun _ hc => h.of_child hc

/-- Behind the first node in parentheses there is a type at most, so the literal comes first. -/
theorem alwaysTrue_of_literallyTrue (h : LiterallyTrue t) (hr : JumpFree t) :
    alwaysTrue t = true := by
  have hkinds : ∀ {s}, LiterallyTrue s → s.kind ≠ "type_annotation" := by
    intro s hs
    cases hs with
    | literal hk | absent hk | parenthesized hk _ _ =>
      rw [hk]
      decide
  induction h with
  | @literal t hk =>
    cases t
    simp [alwaysTrue, hk]
  | @absent t hk =>
    cases t
    simp [alwaysTrue, hk]
  | @parenthesized t s hk hs h ih =>
    have hrest := hr.regular.parenthesized hk
    have hfirst : t.namedChildren.head? = some s := by
      cases hn : t.namedChildren with
      | nil =>
        rw [hn] at hs
        exact absurd hs List.not_mem_nil
      | cons c cs =>
        rw [hn] at hs hrest
        rcases List.mem_cons.mp hs with rfl | hs
        · rfl
        · exact absurd (hrest s hs) (hkinds h)
    have hs' : alwaysTrue s = true := ih (hr.of_child (List.mem_filter.mp hs).1)
    cases t with
    | node l cs =>
      have hcs : firstAlwaysTrue cs = true := by
        have hfind : cs.find? named = some s := by
          rw [← List.head?_filter]
          exact hfirst
        rw [firstAlwaysTrue_eq, hfind]
        exact hs'
      simp [alwaysTrue, hk, hcs]

theorem isEndless_of_endless (h : Endless t) (hr : JumpFree t) : isEndless t = true := by
  unfold Endless at h
  unfold isEndless
  cases hc : t.child? "condition" with
  | none =>
    rw [hc] at h
    exact beq_iff_eq.mpr h
  | some c =>
    rw [hc] at h
    exact alwaysTrue_of_literallyTrue h (hr.of_child? hc)

/-- A jump rather than a result. -/
def Completion.jumps : Completion → Bool
  | breaks _ | continues _ => true
  | _ => false

/-- All that is left to run is regular. -/
def Task.Regular : Task → Prop
  | statement _ t | guarded t | test _ t | turn _ t => JumpFree t
  | sequence ts => ∀ t ∈ ts, JumpFree t

/-- Where nothing jumps no task ends in a jump. -/
theorem Runs.not_jumps {inTry : Bool} {w : Task} {c : Completion} (h : Runs source inTry w c)
    (hw : w.Regular) : c.jumps = false := by
  induction h with
  | throws | plain | returnStatement | throwStatement | noAlternative | labelledBreak | noClause
  | clauseBreak | ends | loopBreak | nil => rfl
  | breakStatement hk | continueStatement hk => exact absurd hk (hw.kind_ne (by decide))
  | labelled hk => exact absurd hk (hw.kind_ne (by decide))
  | block _ _ ih => exact ih fun s hs => hw.of_child (List.mem_filter.mp hs).1
  | consequence _ hs _ ih | alternative _ hs _ ih | withStatement _ hs _ ih
  | unguarded hs _ _ ih | leaves hs _ _ _ ih => exact ih (hw.of_role? hs)
  | tryStatement _ _ _ ih | finalizer _ _ _ _ ih _ | loop _ _ _ ih | doLoop _ _ ih
  | enters _ ih | again _ _ _ _ _ ih => exact ih hw
  | abruptFinalizer _ _ hs _ _ _ ih | handled _ _ hs _ _ ih =>
    exact ih (hw.of_clauseBody? hs)
  | clause _ hcs _ _ _ ih => exact ih (hw.of_clauses? hcs)
  | next _ _ _ _ ih => exact ih (List.forall_mem_cons.mp hw).2
  | stop _ _ _ ih => exact ih (List.forall_mem_cons.mp hw).1

/-- No loop goes on after a body that stops control without a jump. -/
theorem Runs.goesOn_eq_false {inTry : Bool} {labels : List (List Char)} {c : Completion}
    (hr : Runs source inTry (.statement [] s) c) (hj : JumpFree s) (h : NeverCompletes source s) :
    c.goesOn labels = false := by
  have hjumps : c.jumps = false := hr.not_jumps hj
  cases c with
  | normal => exact absurd hr (h inTry [])
  | returns | throws => rfl
  | breaks | continues => cases hjumps

end SnippetLint.TypeScript
