import SnippetLint.Proofs.TypeScript.ReturnPaths

/-! What is made of labels. A `break` to a label is seen where the label stands on a loop or a
`switch`; anywhere else the label and the jumps to it are passed over. -/
namespace SnippetLint.TypeScript
open ParseTree

variable {source : List Char} {t s r core : ParseTree}

/-- `n` labels stand on a statement, one right before the other. -/
inductive Labelled : ℕ → ParseTree → ParseTree → Prop
  | bare {t : ParseTree} : Labelled 0 t t
  | label {n : ℕ} {t s core : ParseTree} (hk : t.kind = "labeled_statement")
      (hs : role? "body" t = some s) (h : Labelled n s core) : Labelled (n + 1) t core

theorem returnsWithin_of_label {levels : ℕ} (hk : t.kind = "labeled_statement")
    (hs : role? "body" t = some s) : returnsWithin (levels + 1) t = returnsWithin levels s := by
  simp [returnsWithin, hk, (role?_eq_some.mp hs).1]

/-- Each label takes up one level. -/
theorem Labelled.returnsWithin_eq {n : ℕ} (h : Labelled n t core) (levels : ℕ) :
    returnsWithin (levels + n) t = returnsWithin levels core := by
  induction h with
  | bare => rfl
  | label hk hs _ ih => rw [← Nat.add_assoc, returnsWithin_of_label hk hs, ih]

/-- A `break` that leaves all of the labels leaves what they stand on. -/
theorem Labelled.breaksTo {n : ℕ} {label : Option (List Char)} (h : Labelled n t core)
    (hb : BreaksTo source label t) : BreaksTo source label core := by
  induction h with
  | bare => exact hb
  | @label _ t s _ hk hs _ ih =>
    cases hb with
    | here hbreak _ =>
      rw [hk] at hbreak
      exact absurd hbreak (by decide)
    | under hr hb _ _ =>
      rw [parts_of_body (by simp [hk, bodyKinds]), hs] at hr
      rw [Option.toList_some, List.mem_singleton] at hr
      exact ih (hr ▸ hb)

theorem not_breaksTo_of_returnsWithin_core {levels : ℕ} {label : Option (List Char)}
    (hb : bindsJumps core = true) (h : returnsWithin (levels + 1) core = true) :
    ¬ BreaksTo source label core := by
  intro hout
  obtain ⟨s, hs, hout⟩ := hout.exists_of_bindsJumps hb
  exact not_breaksTo_of_returnsWithin hb h s hs label hout

/-- An execution that breaks to its label completes the statement. Where the label stands on a loop
or a `switch`, right before it or before other labels, the statement is not taken to return; on
anything else it is taken to return exactly if that would be without the label. -/
theorem alwaysReturns_of_break_to_label {inTry : Bool} {labels : List (List Char)}
    {label : List Char} {n : ℕ} (hk : t.kind = "labeled_statement")
    (hl : label? source t = some label) (hs : role? "body" t = some s)
    (hr : Runs source inTry (.statement (label :: labels) s) (.breaks (some label)))
    (hc : Labelled n s core) (hn : n < 256) :
    Runs source inTry (.statement labels t) .normal ∧
      alwaysReturns t = (!bindsJumps core && returnsWithin (256 - n) core) := by
  refine ⟨.labelledBreak hk hl hs hr, ?_⟩
  obtain ⟨levels, hlevels⟩ : ∃ levels, 256 - n = levels + 1 := ⟨255 - n, by omega⟩
  have hsum : maxStatementLevels = levels + 1 + n + 1 := by
    rw [← hlevels, Nat.sub_add_cancel (Nat.le_of_lt hn)]
    rfl
  rw [alwaysReturns, hsum, returnsWithin_of_label hk hs, hc.returnsWithin_eq, hlevels]
  cases hb : bindsJumps core with
  | false => rfl
  | true =>
    have hout : BreaksTo source (some label) core := hc.breaksTo (hr.breaksOut rfl)
    exact Bool.eq_false_iff.mpr fun h => not_breaksTo_of_returnsWithin_core hb h hout

namespace Sample

def nestedLabels : List Char := "a: b: while (true) \x7b break a; \x7d".toList

def innerLoop : ParseTree :=
  named "while_statement" 6 31 (some "body") [token "while" 6,
    named "parenthesized_expression" 12 18 (some "condition")
      [token "(" 12, named "true" 13 17 none [], token ")" 17],
    named "statement_block" 19 31 (some "body") [token "\x7b" 19,
      named "break_statement" 21 29 none [token "break" 21,
        named "statement_identifier" 27 28 (some "label") [], token ";" 28], token "\x7d" 30]]

def innerLabel : ParseTree :=
  named "labeled_statement" 3 31 (some "body")
    [named "statement_identifier" 3 4 (some "label") [], token ":" 4, innerLoop]

def outerLabel : ParseTree :=
  named "labeled_statement" 0 31 none
    [named "statement_identifier" 0 1 (some "label") [], token ":" 1, innerLabel]

/-- The loop breaks to the label that is not its own. -/
theorem runs_innerLabel :
    Runs nestedLabels false (.statement [['a']] innerLabel) (.breaks (some ['a'])) := by
  refine .labelled rfl rfl rfl (.loop (by decide) (by decide) (.enters ?_)) (by decide)
  exact .leaves rfl (.block (by decide) (.stop rfl (.breakStatement rfl) (by decide))) rfl
    (by decide)

theorem alwaysReturns_outerLabel :
    Runs nestedLabels false (.statement [['a']] innerLabel) (.breaks (some ['a'])) ∧
      Labelled 1 innerLabel innerLoop ∧
      Runs nestedLabels false (.statement [] outerLabel) .normal ∧
      alwaysReturns outerLabel = (!bindsJumps innerLoop && returnsWithin 255 innerLoop) :=
  have hc : Labelled 1 innerLabel innerLoop := .label rfl rfl .bare
  ⟨runs_innerLabel, hc,
    alwaysReturns_of_break_to_label rfl rfl rfl runs_innerLabel hc (by decide)⟩

def labelOnBlock : List Char := "a: \x7b if (x) break a; return 1; \x7d".toList

def choice : ParseTree :=
  named "if_statement" 5 20 none [token "if" 5,
    named "parenthesized_expression" 8 11 (some "condition")
      [token "(" 8, named "identifier" 9 10 none [], token ")" 10],
    named "break_statement" 12 20 (some "consequence") [token "break" 12,
      named "statement_identifier" 18 19 (some "label") [], token ";" 19]]

def blockBody : ParseTree :=
  named "statement_block" 3 32 (some "body") [token "\x7b" 3, choice,
    named "return_statement" 21 30 none
      [token "return" 21, named "number" 28 29 none [], token ";" 29], token "\x7d" 31]

def labelledBlock : ParseTree :=
  named "labeled_statement" 0 32 none
    [named "statement_identifier" 0 1 (some "label") [], token ":" 1, blockBody]

/-- The block is left before its `return`, and yet it is taken to return. -/
theorem not_alwaysReturns_eq_false_of_break_to_label :
    ¬ ∀ source t s label labels inTry, t.kind = "labeled_statement" →
      label? source t = some label → role? "body" t = some s →
      Runs source inTry (.statement (label :: labels) s) (.breaks (some label)) →
      alwaysReturns t = false := by
  intro h
  have hr : Runs labelOnBlock false (.statement [['a']] blockBody) (.breaks (some ['a'])) := by
    refine .block (by decide) (.stop rfl ?_ (by decide))
    exact .consequence rfl rfl (.breakStatement rfl)
  have hfalse := h labelOnBlock labelledBlock blockBody ['a'] [] false rfl rfl rfl hr
  exact absurd hfalse (by decide +kernel)

end Sample

end SnippetLint.TypeScript
