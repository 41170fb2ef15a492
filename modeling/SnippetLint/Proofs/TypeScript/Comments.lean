import SnippetLint.Proofs.ParseTree.Comments
import SnippetLint.Proofs.TypeScript.ReturnPaths
import SnippetLint.TypeScript.Check

/-! Paths through statements that comments are put into. Where the first, the last or any named
child of a node is looked at, a comment is taken for it; other comments change nothing. -/
namespace SnippetLint.TypeScript
open ParseTree Text

/-- The first named child is taken for what the node is about. -/
def ReadsFirst (above : List String) (l : NodeLabel) : Prop :=
  l.kind ∈ ["parenthesized_expression", "else_clause", "rest_pattern"] ∨
    l.field = some "return_type" ∨
    (l.field = some "type" ∧ above.head? = some "variable_declarator")

/-- Any named child counts: as the value of a `return`, and below the last level of statements. -/
def ReadsAny (above : List String) (l : NodeLabel) : Prop :=
  l.kind = "return_statement" ∨
    (l.kind = "statement_block" ∧ maxStatementLevels ≤ above.length)

/-- The last named child is taken for the last clause. -/
def ReadsLast (above : List String) (l : NodeLabel) : Prop :=
  l.field = some "body" ∧ above.head? = some "switch_statement"

instance (above : List String) (l : NodeLabel) : Decidable (ReadsFirst above l) :=
  inferInstanceAs (Decidable (_ ∨ _ ∨ _))

instance (above : List String) (l : NodeLabel) : Decidable (ReadsAny above l) :=
  inferInstanceAs (Decidable (_ ∨ _))

instance (above : List String) (l : NodeLabel) : Decidable (ReadsLast above l) :=
  inferInstanceAs (Decidable (_ ∧ _))

/-- The comments among the children are not taken for anything else. -/
structure Harmless (above : List String) (l : NodeLabel) (ts us : List ParseTree) : Prop where
  first : ReadsFirst above l → us.find? named = ts.find? named
  any : ReadsAny above l → us.any named = ts.any named
  last : ReadsLast above l → (us.filter named).getLast? = (ts.filter named).getLast?

theorem harmless_refl (above : List String) (l : NodeLabel) (ts : List ParseTree) :
    Harmless above l ts ts where
  first _ := rfl
  any _ := rfl
  last _ := rfl

variable {above : List String} {t u : ParseTree}

theorem rel_firstNamed? (h : Commented Harmless above t u) (hr : ReadsFirst above t.label) :
    Option.Rel (Commented Harmless (t.kind :: above)) t.firstNamed? u.firstNamed? := by
  obtain ⟨ds, hds, -, ha⟩ := h.exists_children
  unfold firstNamed? namedChildren
  rw [List.head?_filter, List.head?_filter, ha.first hr]
  exact rel_find?_of_forall₂ hds fun _ _ hsr => hsr.named_eq.symm

theorem any_named_eq (h : Commented Harmless above t u) (hr : ReadsAny above t.label) :
    t.children.any named = u.children.any named := by
  obtain ⟨ds, hds, -, ha⟩ := h.exists_children
  rw [ha.any hr]
  exact any_eq_of_forall₂ hds fun _ _ hsr => hsr.named_eq.symm

theorem rel_lastNamed? (h : Commented Harmless above t u) (hr : ReadsLast above t.label) :
    Option.Rel (Commented Harmless (t.kind :: above)) t.namedChildren.getLast?
      u.namedChildren.getLast? := by
  obtain ⟨ds, hds, -, ha⟩ := h.exists_children
  unfold namedChildren
  rw [ha.last hr, List.getLast?_eq_head?_reverse, List.getLast?_eq_head?_reverse,
    ← List.filter_reverse, ← List.filter_reverse, List.head?_filter, List.head?_filter]
  exact rel_find?_of_forall₂ (List.forall₂_reverse_iff.mpr hds) fun _ _ hsr => hsr.named_eq.symm

mutual

theorem alwaysTrue_of_commented {above : List String} {t u : ParseTree} :
    Commented Harmless above t u → alwaysTrue t = alwaysTrue u
  | @Commented.node _ above l cs ds es hcs hi ha => by
    have hfirst : (l.kind == "parenthesized_expression" && firstAlwaysTrue cs) =
        (l.kind == "parenthesized_expression" && firstAlwaysTrue es) := by
      by_cases hk : l.kind = "parenthesized_expression"
      · have hread : ReadsFirst above l := .inl (by rw [hk]; decide)
        rw [firstAlwaysTrue_of_commented hcs, firstAlwaysTrue_eq ds, firstAlwaysTrue_eq es,
          ha.first hread]
      · rw [beq_false_of_ne hk, Bool.false_and, Bool.false_and]
    rw [alwaysTrue, alwaysTrue]
    exact congrArg (l.kind == "true" || l.kind == "empty_statement" || ·) hfirst

theorem firstAlwaysTrue_of_commented {above : List String} {ts us : List ParseTree} :
    CommentedAll Harmless above ts us → firstAlwaysTrue ts = firstAlwaysTrue us
  | .nil => rfl
  | .cons h hs => by
    rw [firstAlwaysTrue, firstAlwaysTrue, h.named_eq, alwaysTrue_of_commented h,
      firstAlwaysTrue_of_commented hs]

end

theorem isEndless_of_commented (h : Commented Harmless above t u) : isEndless t = isEndless u := by
  have hc := h.rel_child? "condition"
  unfold isEndless
  rw [h.kind_eq]
  generalize t.child? "condition" = c, u.child? "condition" = d at hc ⊢
  cases hc with
  | none => rfl
  | some hc => exact alwaysTrue_of_commented hc

theorem leaves_of_commented {allowed : Insertion} (h : Commented allowed above t u)
    (target : Target) (inLoop inSwitch : Bool) :
    leaves target inLoop inSwitch t = leaves target inLoop inSwitch u := by
  unfold leaves
  rw [h.kind_eq, isSome_eq_of_rel (h.rel_child? "label")]

theorem escapesFrom_comment {c : ParseTree} (hc : IsComment c) (target : Target)
    (inLoop inSwitch : Bool) : escapesFrom target inLoop inSwitch c = false := by
  obtain ⟨l, cs⟩ := c
  obtain rfl : cs = [] := hc.leaf
  have hk : l.kind = "comment" := hc.kind
  rw [escapesFrom, leaves, escapesFromAny, Bool.and_false, Bool.or_false, kind, label, hk]
  rfl

theorem escapesFromAny_inserted {ts us : List ParseTree} (h : Inserted ts us) (target : Target)
    (inLoop inSwitch : Bool) :
    escapesFromAny target inLoop inSwitch ts = escapesFromAny target inLoop inSwitch us := by
  induction h with
  | nil => rfl
  | keep t _ ih => rw [escapesFromAny, escapesFromAny, ih]
  | comment hc _ ih =>
    rw [escapesFromAny, escapesFrom_comment hc, Bool.and_false, Bool.false_or, ih]

mutual

theorem escapesFrom_of_commented {allowed : Insertion} (target : Target) {above : List String}
    {t u : ParseTree} (inLoop inSwitch : Bool) :
    Commented allowed above t u →
      escapesFrom target inLoop inSwitch t = escapesFrom target inLoop inSwitch u
  | .node hcs hi ha => by
    rw [escapesFrom, escapesFrom, leaves_of_commented (.node hcs hi ha),
      escapesFromAny_of_commented target _ _ hcs, escapesFromAny_inserted hi]
    rfl

theorem escapesFromAny_of_commented {allowed : Insertion} (target : Target) {above : List String}
    {ts us : List ParseTree} (inLoop inSwitch : Bool) :
    CommentedAll allowed above ts us →
      escapesFromAny target inLoop inSwitch ts = escapesFromAny target inLoop inSwitch us
  | .nil => rfl
  | .cons h hs => by
    rw [escapesFromAny, escapesFromAny, h.named_eq, escapesFrom_of_commented target _ _ h,
      escapesFromAny_of_commented target _ _ hs]

end

theorem escapes_of_commented {allowed : Insertion} (h : Commented allowed above t u)
    (target : Target) : escapes target t = escapes target u := by
  rw [escapes_eq_escapesFromAny, escapes_eq_escapesFromAny]
  cases h with
  | node hcs hi _ =>
    exact (escapesFromAny_of_commented target false false hcs).trans
      (escapesFromAny_inserted hi target false false)

theorem valueReturns_comment {c : ParseTree} (hc : IsComment c) : valueReturns c = 0 := by
  obtain ⟨l, cs⟩ := c
  obtain rfl : cs = [] := hc.leaf
  have hk : l.kind = "comment" := hc.kind
  rw [valueReturns, valueReturnsOfAll, ite_self, kind, label, hk]
  rfl

theorem valueReturnsOfAll_inserted {ts us : List ParseTree} (h : Inserted ts us) :
    valueReturnsOfAll ts = valueReturnsOfAll us := by
  induction h with
  | nil => rfl
  | keep t _ ih => rw [valueReturnsOfAll, valueReturnsOfAll, ih]
  | comment hc _ ih => rw [valueReturnsOfAll, valueReturns_comment hc, Nat.zero_add, ih]

theorem isEmpty_namedChildren (t : ParseTree) :
    t.namedChildren.isEmpty = !t.children.any named := by
  unfold namedChildren
  induction t.children with
  | nil => rfl
  | cons c cs ih =>
    rw [List.filter_cons, List.any_cons]
    cases c.named with
    | true => rfl
    | false => exact ih

mutual

theorem valueReturns_of_commented {above : List String} {t u : ParseTree} :
    Commented Harmless above t u → valueReturns t = valueReturns u
  | @Commented.node _ above l cs ds es hcs hi ha => by
    have h : Commented Harmless above (.node l cs) (.node l es) := .node hcs hi ha
    have hvalue : ((node l cs).kind == "return_statement" && !(node l cs).namedChildren.isEmpty) =
        ((node l es).kind == "return_statement" && !(node l es).namedChildren.isEmpty) := by
      rw [isEmpty_namedChildren, isEmpty_namedChildren, Bool.not_not, Bool.not_not, h.kind_eq]
      by_cases hk : (node l cs).kind = "return_statement"
      · rw [any_named_eq h (.inl hk)]
      · rw [beq_false_of_ne hk, Bool.false_and, Bool.false_and]
    rw [valueReturns, valueReturns, hvalue, valueReturnsOfAll_of_commented hcs,
      valueReturnsOfAll_inserted hi]
    rfl

theorem valueReturnsOfAll_of_commented {above : List String} {ts us : List ParseTree} :
    CommentedAll Harmless above ts us → valueReturnsOfAll ts = valueReturnsOfAll us
  | .nil => rfl
  | .cons h hs => by
    rw [valueReturnsOfAll, valueReturnsOfAll, valueReturns_of_commented h,
      valueReturnsOfAll_of_commented hs]

end

theorem returnsWithin_comment {c : ParseTree} (hc : IsComment c) (levels : ℕ) :
    returnsWithin (levels + 1) c = false := by
  refine returnsWithin_of_not_control ?_
  rw [hc.kind]
  decide

section
variable {levels : ℕ} (hbelow : ∀ below s r, above.length < List.length below →
  Commented Harmless below s r → returnsWithin levels s = returnsWithin levels r)
include hbelow

theorem returnsWithin_of_child {s r : ParseTree} (hsr : Commented Harmless (t.kind :: above) s r) :
    returnsWithin levels s = returnsWithin levels r :=
  hbelow _ _ _ (Nat.lt_add_one _) hsr

theorem any_child?_of_commented (h : Commented Harmless above t u) (field : String) :
    (t.child? field).any (returnsWithin levels) = (u.child? field).any (returnsWithin levels) :=
  any_eq_of_rel (h.rel_child? field) fun _ _ => returnsWithin_of_child hbelow

/-- Statements of a block; a comment that is one returns only where none is looked at. -/
theorem any_statements_of_commented (h : Commented Harmless above t u)
    (hk : t.kind = "statement_block") (hl : maxStatementLevels ≤ above.length + levels) :
    t.namedChildren.any (returnsWithin levels) = u.namedChildren.any (returnsWithin levels) := by
  cases levels with
  | zero =>
    have hany := any_named_eq h (.inr ⟨hk, hl⟩)
    unfold namedChildren
    rw [List.any_filter, List.any_filter]
    simpa [returnsWithin] using hany
  | succ levels =>
    exact h.any_namedChildren_eq (fun c hc => returnsWithin_comment hc levels)
      fun _ _ => returnsWithin_of_child hbelow

/-- The body of a part of a `try`. -/
theorem any_body_of_commented {s r : ParseTree} (hsr : Commented Harmless (t.kind :: above) s r) :
    (s.child? "body").any (returnsWithin levels) =
      (r.child? "body").any (returnsWithin levels) := by
  refine any_eq_of_rel (hsr.rel_child? "body") fun _ _ => hbelow _ _ _ ?_
  rw [List.length_cons, List.length_cons]
  omega

/-- The statements of the last clause of a `switch`; it is still the last where no comment is put
in behind it. -/
theorem any_lastClause_of_commented {b c : ParseTree} (hk : t.kind = "switch_statement")
    (hbc : Commented Harmless (t.kind :: above) b c) (hb : b.label.field = some "body") :
    (b.namedChildren.getLast?.any fun last => (last.childrenIn "body").any (returnsWithin levels)) =
      c.namedChildren.getLast?.any fun last =>
        (last.childrenIn "body").any (returnsWithin levels) := by
  have hread : ReadsLast (t.kind :: above) b.label := ⟨hb, congrArg some hk⟩
  refine any_eq_of_rel (rel_lastNamed? hbc hread) fun s r hsr => ?_
  refine any_eq_of_forall₂ (hsr.forall₂_childrenIn "body") fun _ _ => hbelow _ _ _ ?_
  rw [List.length_cons, List.length_cons, List.length_cons]
  omega

end

/-- The levels that are left and the nodes above are together more than the levels that are looked
at, so that no level is left only where a comment in a block counts. -/
theorem returnsWithin_of_commented (levels : ℕ) {above : List String} {t u : ParseTree}
    (h : Commented Harmless above t u) (hl : maxStatementLevels < above.length + levels) :
    returnsWithin levels t = returnsWithin levels u := by
  induction levels generalizing above t u with
  | zero => rfl
  | succ levels ih =>
    have hbelow : ∀ below s r, above.length < List.length below →
        Commented Harmless below s r → returnsWithin levels s = returnsWithin levels r :=
      fun below s r hlt hsr => ih hsr (by omega)
    have hchild := any_child?_of_commented hbelow h
    unfold returnsWithin
    rw [h.kind_eq]
    dsimp only
    -- Kind by kind, as in the definition; the first two return whatever is below them.
    split
    case h_3 hk => exact any_statements_of_commented hbelow h hk (by omega)
    case h_4 hk => rw [hchild, hchild]
    case h_5 hk =>
      have hread : ReadsFirst above t.label := .inl (by change t.kind ∈ _; rw [hk]; decide)
      exact any_eq_of_rel (rel_firstNamed? h hread) fun _ _ => returnsWithin_of_child hbelow
    case h_6 hk => rw [hchild]
    case h_7 hk =>
      have hbody : ∀ s r, Commented Harmless (t.kind :: above) s r →
          (s.child? "body").any (returnsWithin levels) =
            (r.child? "body").any (returnsWithin levels) :=
        fun _ _ => any_body_of_commented hbelow
      rw [Option.any_bind, Option.any_bind, hchild, all_eq_of_rel (h.rel_child? "handler") hbody]
      congr 1
      exact any_eq_of_rel (h.rel_child? "finalizer") hbody
    case h_8 hk =>
      have hb := h.rel_child?_with_field "body"
      rw [escapes_of_commented h]
      generalize t.child? "body" = x, u.child? "body" = y at hb ⊢
      cases hb with
      | none => rfl
      | some hb =>
        dsimp only
        rw [hb.1.any_namedKind_eq (· == "switch_default") rfl,
          any_lastClause_of_commented hbelow hk hb.1 hb.2]
    case h_9 hk => rw [isEndless_of_commented h, escapes_of_commented h]
    case h_10 hk => rw [isEndless_of_commented h, escapes_of_commented h]
    case h_11 hk => rw [isEndless_of_commented h, escapes_of_commented h]
    all_goals rfl

theorem alwaysReturns_of_commented (h : Commented Harmless above t u) (ha : above ≠ []) :
    alwaysReturns t = alwaysReturns u := by
  have hlength := List.length_pos_iff.mpr ha
  exact returnsWithin_of_commented maxStatementLevels h (by omega)

end SnippetLint.TypeScript
