import SnippetLint.Proofs.ParseTree.Nodes
import SnippetLint.Proofs.TypeScript.Comments

/-! Functions inside a function. What they do is no concern of the function around them: two bodies
that differ in nothing but what is below the functions in them return on the same paths. -/
namespace SnippetLint.TypeScript
open ParseTree Text

/-- Two nodes of the same kind in the same role, which may stand at different places. -/
structure LabelsAgree (l m : NodeLabel) : Prop where
  kind : m.kind = l.kind
  named : m.named = l.named
  field : m.field = l.field

mutual

/-- The two trees differ at most strictly below functions. -/
inductive Refilled : ParseTree → ParseTree → Prop
  | function {l m : NodeLabel} {cs ds : List ParseTree} (label : LabelsAgree l m)
      (function : l.kind ∈ functionKinds) : Refilled (.node l cs) (.node m ds)
  | node {l m : NodeLabel} {cs ds : List ParseTree} (label : LabelsAgree l m)
      (children : RefilledAll cs ds) : Refilled (.node l cs) (.node m ds)

inductive RefilledAll : List ParseTree → List ParseTree → Prop
  | nil : RefilledAll [] []
  | cons {t u : ParseTree} {ts us : List ParseTree} (head : Refilled t u)
      (tail : RefilledAll ts us) : RefilledAll (t :: ts) (u :: us)

end

/-- What the grammar says of a node: a `try` has a `catch_clause` and a `finally_clause`, and a
`switch` has a `switch_body` with clauses in it, so that no function stands there. -/
structure HoldsClauses (t : ParseTree) : Prop where
  handler : t.kind = "try_statement" → ∀ c ∈ t.child? "handler", isFunction c = false
  finalizer : t.kind = "try_statement" → ∀ c ∈ t.child? "finalizer", isFunction c = false
  body : t.kind = "switch_statement" → ∀ b ∈ t.child? "body", isFunction b = false ∧
    ∀ c ∈ b.namedChildren, isFunction c = false

instance (t : ParseTree) : Decidable (HoldsClauses t) :=
  decidable_of_iff
    ((t.kind = "try_statement" → ∀ c ∈ t.child? "handler", isFunction c = false) ∧
      (t.kind = "try_statement" → ∀ c ∈ t.child? "finalizer", isFunction c = false) ∧
      (t.kind = "switch_statement" → ∀ b ∈ t.child? "body", isFunction b = false ∧
        ∀ c ∈ b.namedChildren, isFunction c = false))
    ⟨fun ⟨h₁, h₂, h₃⟩ => ⟨h₁, h₂, h₃⟩, fun ⟨h₁, h₂, h₃⟩ => ⟨h₁, h₂, h₃⟩⟩

variable {t u : ParseTree} {ts us : List ParseTree}

theorem RefilledAll.forall₂ (h : RefilledAll ts us) : List.Forall₂ Refilled ts us := by
  induction ts generalizing us with
  | nil =>
    cases h
    exact .nil
  | cons t ts ih =>
    cases h with
    | cons head tail => exact .cons head (ih tail)

theorem isFunction_iff : isFunction t = true ↔ t.kind ∈ functionKinds := List.contains_iff_mem

theorem kind_ne_of_isFunction (h : isFunction t = true) {k : String} (hk : k ∉ functionKinds) :
    t.kind ≠ k := by
  rintro rfl
  exact hk (isFunction_iff.mp h)

namespace Refilled

theorem label (h : Refilled t u) : LabelsAgree t.label u.label := by
  cases h with
  | function label => exact label
  | node label => exact label

theorem kind_eq (h : Refilled t u) : u.kind = t.kind := h.label.kind

theorem named_eq (h : Refilled t u) : u.named = t.named := h.label.named

theorem field_eq (h : Refilled t u) : u.label.field = t.label.field := h.label.field

theorem isFunction_eq (h : Refilled t u) : isFunction u = isFunction t := by
  rw [isFunction, isFunction, h.kind_eq]

/-- Only the children of a function can be others. -/
theorem children (h : Refilled t u) (hf : isFunction t = false) :
    RefilledAll t.children u.children := by
  cases h with
  | @function l _ cs _ _ hk =>
    have ht : isFunction (.node l cs) = true := isFunction_iff.mpr hk
    exact absurd (hf.symm.trans ht) Bool.false_ne_true
  | node _ children => exact children

end Refilled

section
variable {R : ParseTree → ParseTree → Prop} (hR : ∀ s r, R s r → LabelsAgree s.label r.label)
  (h : List.Forall₂ R t.children u.children)
include hR h

theorem rel_child?_of_labels (field : String) :
    Option.Rel R (t.child? field) (u.child? field) :=
  rel_find?_of_forall₂ h fun s r hsr => by rw [(hR s r hsr).field]

theorem forall₂_childrenIn_of_labels (field : String) :
    List.Forall₂ R (t.childrenIn field) (u.childrenIn field) :=
  List.rel_filter (fun s r hsr => by simp only [(hR s r hsr).field]) h

theorem forall₂_namedChildren_of_labels : List.Forall₂ R t.namedChildren u.namedChildren := by
  refine List.rel_filter (fun s r hsr => ?_) h
  have hnamed : r.named = s.named := (hR s r hsr).named
  simp only [hnamed]

end

/-! Where each of the searches ends: at a function, whatever is below it. -/

theorem valueReturns_of_isFunction (h : isFunction t = true) : valueReturns t = 0 := by
  have hk := kind_ne_of_isFunction h (k := "return_statement") (by decide)
  cases t with
  | node l cs => rw [valueReturns, if_pos h, beq_false_of_ne hk, Bool.false_and]; rfl

theorem escapesFrom_of_isFunction (h : isFunction t = true) (target : Target)
    (inLoop inSwitch : Bool) : escapesFrom target inLoop inSwitch t = false := by
  have hbreak := kind_ne_of_isFunction h (k := "break_statement") (by decide)
  have hcontinue := kind_ne_of_isFunction h (k := "continue_statement") (by decide)
  have hleaves : leaves target inLoop inSwitch t = false := by
    rw [leaves, if_neg (by simpa using hbreak), beq_false_of_ne hcontinue]
    rfl
  cases t with
  | node l cs => rw [escapesFrom, hleaves, h]; rfl

theorem alwaysTrue_of_isFunction (h : isFunction t = true) : alwaysTrue t = false := by
  have htrue := kind_ne_of_isFunction h (k := "true") (by decide)
  have hempty := kind_ne_of_isFunction h (k := "empty_statement") (by decide)
  have hparens := kind_ne_of_isFunction h (k := "parenthesized_expression") (by decide)
  cases t with
  | node l cs =>
    rw [alwaysTrue, beq_false_of_ne htrue, beq_false_of_ne hempty, beq_false_of_ne hparens]
    rfl

theorem returnsWithin_of_isFunction (h : isFunction t = true) (levels : ℕ) :
    returnsWithin (levels + 1) t = false := by
  refine returnsWithin_of_not_control fun hc => ?_
  have hdisjoint : ∀ k ∈ functionKinds, k ∉ controlKinds := by decide
  exact hdisjoint _ (isFunction_iff.mp h) hc

theorem eq_at_functions {α : Type} (f : ParseTree → α) {x : α}
    (hf : ∀ t, isFunction t = true → f t = x) {l m : NodeLabel} {cs ds : List ParseTree}
    (label : LabelsAgree l m) (hk : l.kind ∈ functionKinds) :
    f (.node l cs) = f (.node m ds) := by
  have hm : m.kind ∈ functionKinds := by rwa [label.kind]
  rw [hf (.node l cs) (isFunction_iff.mpr hk), hf (.node m ds) (isFunction_iff.mpr hm)]

mutual

theorem valueReturns_of_refilled {t u : ParseTree} :
    Refilled t u → valueReturns t = valueReturns u
  | .function label hk =>
    eq_at_functions valueReturns (fun _ => valueReturns_of_isFunction) label hk
  | @Refilled.node l m cs ds label hcs => by
    have h : Refilled (.node l cs) (.node m ds) := .node label hcs
    have hnamed : (node m ds).namedChildren.isEmpty = (node l cs).namedChildren.isEmpty := by
      have hlength := (forall₂_namedChildren_of_labels (t := .node l cs) (u := .node m ds)
        (fun _ _ => Refilled.label) hcs.forall₂).length_eq
      rw [Bool.eq_iff_iff, List.isEmpty_iff_length_eq_zero, List.isEmpty_iff_length_eq_zero,
        hlength]
    rw [valueReturns, valueReturns, valueReturnsOfAll_of_refilled hcs, h.kind_eq, hnamed,
      h.isFunction_eq]

theorem valueReturnsOfAll_of_refilled {ts us : List ParseTree} :
    RefilledAll ts us → valueReturnsOfAll ts = valueReturnsOfAll us
  | .nil => rfl
  | .cons h hs => by
    rw [valueReturnsOfAll, valueReturnsOfAll, valueReturns_of_refilled h,
      valueReturnsOfAll_of_refilled hs]

end

theorem leaves_of_refilled (h : Refilled t u) (hcs : RefilledAll t.children u.children)
    (target : Target) (inLoop inSwitch : Bool) :
    leaves target inLoop inSwitch t = leaves target inLoop inSwitch u := by
  have hlabel := rel_child?_of_labels (fun _ _ => Refilled.label) hcs.forall₂ "label"
  rw [leaves, leaves, h.kind_eq, isSome_eq_of_rel hlabel]

mutual

theorem escapesFrom_of_refilled (target : Target) {t u : ParseTree} (inLoop inSwitch : Bool) :
    Refilled t u → escapesFrom target inLoop inSwitch t = escapesFrom target inLoop inSwitch u
  | .function label hk =>
    eq_at_functions (escapesFrom target inLoop inSwitch)
      (fun _ h => escapesFrom_of_isFunction h target inLoop inSwitch) label hk
  | @Refilled.node l m cs ds label hcs => by
    have h : Refilled (.node l cs) (.node m ds) := .node label hcs
    rw [escapesFrom, escapesFrom, leaves_of_refilled h hcs,
      escapesFromAny_of_refilled target _ _ hcs, h.kind_eq, h.isFunction_eq]

theorem escapesFromAny_of_refilled (target : Target) {ts us : List ParseTree}
    (inLoop inSwitch : Bool) :
    RefilledAll ts us →
      escapesFromAny target inLoop inSwitch ts = escapesFromAny target inLoop inSwitch us
  | .nil => rfl
  | .cons h hs => by
    rw [escapesFromAny, escapesFromAny, h.named_eq, escapesFrom_of_refilled target _ _ h,
      escapesFromAny_of_refilled target _ _ hs]

end

mutual

theorem alwaysTrue_of_refilled {t u : ParseTree} : Refilled t u → alwaysTrue t = alwaysTrue u
  | .function label hk => eq_at_functions alwaysTrue (fun _ => alwaysTrue_of_isFunction) label hk
  | @Refilled.node l m cs ds label hcs => by
    have h : Refilled (.node l cs) (.node m ds) := .node label hcs
    rw [alwaysTrue, alwaysTrue, firstAlwaysTrue_of_refilled hcs, h.kind_eq]

theorem firstAlwaysTrue_of_refilled {ts us : List ParseTree} :
    RefilledAll ts us → firstAlwaysTrue ts = firstAlwaysTrue us
  | .nil => rfl
  | .cons h hs => by
    rw [firstAlwaysTrue, firstAlwaysTrue, h.named_eq, alwaysTrue_of_refilled h,
      firstAlwaysTrue_of_refilled hs]

end

/-- The two trees differ at most strictly below functions, and no clause is a function. -/
structure RefilledTree (t u : ParseTree) : Prop where
  refilled : Refilled t u
  clauses : ∀ n ∈ t.nodes, HoldsClauses n

namespace RefilledTree

theorem label (h : RefilledTree t u) : LabelsAgree t.label u.label := h.refilled.label

theorem here (h : RefilledTree t u) : HoldsClauses t := h.clauses t (mem_nodes_self t)

theorem children (h : RefilledTree t u) (hf : isFunction t = false) :
    List.Forall₂ RefilledTree t.children u.children := by
  have hclauses : ∀ s ∈ t.children, ∀ n ∈ s.nodes, HoldsClauses n :=
    fun s hs n hn => h.clauses n (mem_nodes_of_child hs hn)
  have hboth := (List.forall₂_and_left _ _).mpr ⟨hclauses, (h.refilled.children hf).forall₂⟩
  exact hboth.imp fun _ _ hsr => ⟨hsr.2, hsr.1⟩

variable (h : RefilledTree t u) (hf : isFunction t = false)
include h hf

theorem rel_child? (field : String) :
    Option.Rel RefilledTree (t.child? field) (u.child? field) :=
  rel_child?_of_labels (fun _ _ => label) (h.children hf) field

theorem namedChildren : List.Forall₂ RefilledTree t.namedChildren u.namedChildren :=
  forall₂_namedChildren_of_labels (fun _ _ => label) (h.children hf)

theorem childrenIn (field : String) :
    List.Forall₂ RefilledTree (t.childrenIn field) (u.childrenIn field) :=
  forall₂_childrenIn_of_labels (fun _ _ => label) (h.children hf) field

theorem isEndless_eq : isEndless t = isEndless u := by
  have hc := h.rel_child? hf "condition"
  unfold isEndless
  rw [h.refilled.kind_eq]
  generalize t.child? "condition" = c, u.child? "condition" = d at hc ⊢
  cases hc with
  | none => rfl
  | some hc => exact alwaysTrue_of_refilled hc.refilled

theorem escapes_eq (target : Target) : escapes target t = escapes target u := by
  rw [escapes_eq_escapesFromAny, escapes_eq_escapesFromAny]
  exact escapesFromAny_of_refilled target false false (h.refilled.children hf)

end RefilledTree

section
variable {levels : ℕ} (hbelow : ∀ s r, RefilledTree s r →
  returnsWithin levels s = returnsWithin levels r)
include hbelow

theorem any_child?_of_refilled (h : RefilledTree t u) (hf : isFunction t = false)
    (field : String) :
    (t.child? field).any (returnsWithin levels) = (u.child? field).any (returnsWithin levels) :=
  any_eq_of_rel (h.rel_child? hf field) hbelow

/-- The statements of the last clause of a `switch`. -/
theorem any_lastClause_of_refilled (h : RefilledTree t u) (hf : isFunction t = false)
    (hcs : ∀ c ∈ t.namedChildren, isFunction c = false) :
    (t.namedChildren.getLast?.any fun last => (last.childrenIn "body").any (returnsWithin levels)) =
      u.namedChildren.getLast?.any fun last =>
        (last.childrenIn "body").any (returnsWithin levels) := by
  refine any_eq_of_rel (rel_and_mem (rel_getLast?_of_forall₂ (h.namedChildren hf))) ?_
  rintro s r ⟨hsr, hs, -⟩
  exact any_eq_of_forall₂ (hsr.childrenIn (hcs s (List.mem_of_getLast? hs)) "body") hbelow

end

theorem returnsWithin_of_refilled (levels : ℕ) (h : RefilledTree t u) :
    returnsWithin levels t = returnsWithin levels u := by
  induction levels generalizing t u with
  | zero => rfl
  | succ levels ih =>
    cases hf : isFunction t with
    | true =>
      rw [returnsWithin_of_isFunction hf,
        returnsWithin_of_isFunction (h.refilled.isFunction_eq.trans hf)]
    | false =>
    have hbelow : ∀ s r, RefilledTree s r → returnsWithin levels s = returnsWithin levels r :=
      fun _ _ hsr => ih hsr
    have hchild := any_child?_of_refilled hbelow h hf
    unfold returnsWithin
    rw [h.refilled.kind_eq]
    dsimp only
    -- Kind by kind, as in the definition; the first two return whatever is below them.
    split
    case h_3 => exact any_eq_of_forall₂ (h.namedChildren hf) hbelow
    case h_4 => rw [hchild, hchild]
    case h_5 => exact any_eq_of_rel (rel_head?_of_forall₂ (h.namedChildren hf)) hbelow
    case h_6 => rw [hchild]
    case h_7 hk =>
      have hhandler : (t.child? "handler").all
          (fun c => (c.child? "body").any (returnsWithin levels)) =
          (u.child? "handler").all fun c => (c.child? "body").any (returnsWithin levels) := by
        refine all_eq_of_rel (rel_and_mem (h.rel_child? hf "handler")) ?_
        rintro s r ⟨hsr, hs, -⟩
        exact any_child?_of_refilled hbelow hsr (h.here.handler hk s hs) "body"
      have hfinalizer : ((t.child? "finalizer").bind (child? "body")).any (returnsWithin levels) =
          ((u.child? "finalizer").bind (child? "body")).any (returnsWithin levels) := by
        rw [Option.any_bind, Option.any_bind]
        refine any_eq_of_rel (rel_and_mem (h.rel_child? hf "finalizer")) ?_
        rintro s r ⟨hsr, hs, -⟩
        exact any_child?_of_refilled hbelow hsr (h.here.finalizer hk s hs) "body"
      rw [hfinalizer, hchild, hhandler]
    case h_8 hk =>
      have hb := rel_and_mem (h.rel_child? hf "body")
      have hclauses := h.here.body hk
      rw [h.escapes_eq hf]
      generalize t.child? "body" = x, u.child? "body" = y at hb hclauses ⊢
      cases hb with
      | none => rfl
      | @some b c hb =>
        obtain ⟨hbf, hcs⟩ := hclauses b rfl
        have hdefault : (b.namedChildren.any (·.kind == "switch_default")) =
            c.namedChildren.any (·.kind == "switch_default") :=
          any_eq_of_forall₂ (hb.1.namedChildren hbf) fun s r hsr => by
            rw [hsr.refilled.kind_eq]
        dsimp only
        rw [hdefault, any_lastClause_of_refilled hbelow hb.1 hbf hcs]
    case h_9 => rw [h.isEndless_eq hf, h.escapes_eq hf]
    case h_10 => rw [h.isEndless_eq hf, h.escapes_eq hf]
    case h_11 => rw [h.isEndless_eq hf, h.escapes_eq hf]
    all_goals rfl

/-- The text of the type that a function is declared to return. -/
def declaredType? (source : List Char) (f : ParseTree) : Option (List Char) :=
  ((f.child? "return_type").bind firstNamed?).map (text source)

/-- What is reported of missing returns: no value at all where one is declared, or no value on some
path. -/
def returnCodes (o : Options) (type : Option (List Char)) (values : ℕ) (always : Bool) : List ℕ :=
  if type.any isVoidLike || always then []
  else if values = 0 then if type.isSome then [2355] else []
  else if o.noImplicitReturns then [7030] else []

theorem returnCodes_mem (o : Options) (type : Option (List Char)) (values : ℕ) (always : Bool) :
    returnCodes o type values always ∈ [[], [2355], [7030]] := by
  unfold returnCodes
  split_ifs <;> decide

theorem map_code_missingReturns (source : List Char) (o : Options) (f b : ParseTree) :
    (missingReturns source o f b).map Finding.code =
      returnCodes o (declaredType? source f) (valueReturns b) (alwaysReturns b) := by
  unfold missingReturns returnCodes declaredType?
  generalize o.noImplicitReturns = strict, valueReturns b = values, alwaysReturns b = always
  cases (f.child? "return_type").bind firstNamed? with
  | none => cases always <;> cases values <;> cases strict <;> rfl
  | some t =>
    cases hn : isVoidLike (t.text source) <;> cases always <;> cases values <;> cases strict <;>
      simp [hn, Finding.error]

/-- Two functions that differ at most strictly below functions in them are said to lack the same
returns: none, any value, or a value on some path. -/
theorem missingReturns_blind_to_nested_functions {source source' : List Char}
    {f f' b b' : ParseTree} (hf : RefilledAll f.children f'.children)
    (htype : declaredType? source f = declaredType? source' f')
    (hb : f.child? "body" = some b) (hb' : f'.child? "body" = some b')
    (hclauses : ∀ n ∈ b.nodes, HoldsClauses n) (o : Options) :
    (missingReturns source o f b).map Finding.code =
        (missingReturns source' o f' b').map Finding.code ∧
      (missingReturns source o f b).map Finding.code ∈ [[], [2355], [7030]] := by
  have hbody := rel_child?_of_labels (fun _ _ => Refilled.label) hf.forall₂ "body"
  rw [hb, hb'] at hbody
  cases hbody with
  | some h =>
    have halways : alwaysReturns b = alwaysReturns b' :=
      returnsWithin_of_refilled maxStatementLevels ⟨h, hclauses⟩
    rw [map_code_missingReturns, map_code_missingReturns, htype, valueReturns_of_refilled h,
      halways]
    exact ⟨rfl, returnCodes_mem ..⟩

namespace Sample

def returning : List Char :=
  "function f(): number ".toList ++
    "\x7b switch (x) \x7b default: g(() => \x7b return 1; \x7d); \x7d \x7d".toList

def breaking : List Char :=
  "function f(): number ".toList ++
    "\x7b switch (x) \x7b default: g(() => \x7b break; \x7d); \x7d \x7d".toList

def returnOne : ParseTree :=
  named "return_statement" 55 64 none
    [token "return" 55, named "number" 62 63 none [], token ";" 63]

def breakOut : ParseTree :=
  named "break_statement" 55 61 none [token "break" 55, token ";" 60]

/-- The arrow function with the statement in it. -/
def arrowOf (s : ParseTree) : ParseTree :=
  named "arrow_function" 47 (s.stop + 2) none [
    named "formal_parameters" 47 49 (some "parameters") [token "(" 47, token ")" 48],
    token "=>" 50,
    named "statement_block" 53 (s.stop + 2) (some "body")
      [token "\x7b" 53, s, token "\x7d" (s.stop + 1)]]

/-- The clause that passes the arrow function on. -/
def clauseOf (s : ParseTree) : ParseTree :=
  named "switch_default" 36 (s.stop + 4) none [token "default" 36, token ":" 43,
    named "expression_statement" 45 (s.stop + 4) (some "body") [
      named "call_expression" 45 (s.stop + 3) none [
        named "identifier" 45 46 (some "function") [],
        named "arguments" 46 (s.stop + 3) (some "arguments")
          [token "(" 46, arrowOf s, token ")" (s.stop + 2)]],
      token ";" (s.stop + 3)]]

def outerBody (s : ParseTree) : ParseTree :=
  named "statement_block" 21 (s.stop + 8) (some "body") [token "\x7b" 21,
    named "switch_statement" 23 (s.stop + 6) none [token "switch" 23,
      named "parenthesized_expression" 30 33 (some "value")
        [token "(" 30, named "identifier" 31 32 none [], token ")" 32],
      named "switch_body" 34 (s.stop + 6) (some "body")
        [token "\x7b" 34, clauseOf s, token "\x7d" (s.stop + 5)]],
    token "\x7d" (s.stop + 7)]

def outer (s : ParseTree) : ParseTree :=
  named "function_declaration" 0 (s.stop + 8) none [token "function" 0,
    named "identifier" 9 10 (some "name") [],
    named "formal_parameters" 10 12 (some "parameters") [token "(" 10, token ")" 11],
    named "type_annotation" 12 20 (some "return_type") [token ":" 12,
      named "predefined_type" 14 20 none [token "number" 14]],
    outerBody s]

theorem refilled_token (text : String) (i j : ℕ) : Refilled (token text i) (token text j) :=
  .node ⟨rfl, rfl, rfl⟩ .nil

theorem refilled_named {kind : String} {field : Option String} {cs ds : List ParseTree}
    (h : RefilledAll cs ds) (i j k l : ℕ) :
    Refilled (named kind i j field cs) (named kind k l field ds) :=
  .node ⟨rfl, rfl, rfl⟩ h

theorem refilled_clauseOf (s r : ParseTree) : Refilled (clauseOf s) (clauseOf r) := by
  have hkind : "arrow_function" ∈ functionKinds := by decide
  have harrow : Refilled (arrowOf s) (arrowOf r) := .function ⟨rfl, rfl, rfl⟩ hkind
  refine refilled_named (.cons (refilled_token ..) (.cons (refilled_token ..) (.cons ?_ .nil))) ..
  refine refilled_named (.cons ?_ (.cons (refilled_token ..) .nil)) ..
  refine refilled_named (.cons (refilled_named .nil ..) (.cons ?_ .nil)) ..
  exact refilled_named (.cons (refilled_token ..)
    (.cons harrow (.cons (refilled_token ..) .nil))) ..

/-- Whatever stands in the arrow function. -/
theorem refilledAll_outer (s r : ParseTree) :
    RefilledAll (outer s).children (outer r).children := by
  have hbody : Refilled (outerBody s) (outerBody r) := by
    refine refilled_named (.cons (refilled_token ..) (.cons ?_ (.cons (refilled_token ..) .nil))) ..
    refine refilled_named (.cons (refilled_token ..) (.cons ?_ (.cons ?_ .nil))) ..
    · exact refilled_named (.cons (refilled_token ..)
        (.cons (refilled_named .nil ..) (.cons (refilled_token ..) .nil))) ..
    · exact refilled_named (.cons (refilled_token ..)
        (.cons (refilled_clauseOf s r) (.cons (refilled_token ..) .nil))) ..
  refine .cons (refilled_token ..) (.cons (refilled_named .nil ..) (.cons ?_ (.cons ?_
    (.cons hbody .nil))))
  · exact refilled_named (.cons (refilled_token ..) (.cons (refilled_token ..) .nil)) ..
  · exact refilled_named (.cons (refilled_token ..)
      (.cons (refilled_named (.cons (refilled_token ..) .nil) ..) .nil)) ..

/-- Neither the `return` nor the `break` in the arrow function is one of the outer function. -/
theorem codes_outer :
    RefilledAll (outer returnOne).children (outer breakOut).children ∧
      declaredType? returning (outer returnOne) = declaredType? breaking (outer breakOut) ∧
      (∀ n ∈ (outerBody returnOne).nodes, HoldsClauses n) ∧
      (missingReturns returning .allStrict (outer returnOne) (outerBody returnOne)).map
        Finding.code = [2355] ∧
      (missingReturns breaking .allStrict (outer breakOut) (outerBody breakOut)).map
        Finding.code = [2355] := by
  have hf := refilledAll_outer returnOne breakOut
  have htype : declaredType? returning (outer returnOne) =
      declaredType? breaking (outer breakOut) := by decide +kernel
  have hclauses : ∀ n ∈ (outerBody returnOne).nodes, HoldsClauses n := by decide +kernel
  have hcodes : (missingReturns returning .allStrict (outer returnOne) (outerBody returnOne)).map
      Finding.code = [2355] := by decide +kernel
  have h := (missingReturns_blind_to_nested_functions hf htype rfl rfl hclauses .allStrict).1
  exact ⟨hf, htype, hclauses, hcodes, h.symm.trans hcodes⟩

end Sample

end SnippetLint.TypeScript
