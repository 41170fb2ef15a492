import SnippetLint.Proofs.TypeScript.Comments
import SnippetLint.Proofs.TypeScript.References

/-! Findings in a tree that comments are put into: they are the same where no comment is taken for
anything else, and a comment before the condition of an endless loop hides it. -/
namespace SnippetLint.TypeScript
open ParseTree Text

variable {above : List String} {t u : ParseTree}

/-- The same node with and without comments below it, somewhere in the trees. -/
def Alike (t u : ParseTree) : Prop := ∃ above, Commented Harmless above t u

theorem Alike.kind_eq (h : Alike t u) : u.kind = t.kind := h.elim fun _ h => h.kind_eq

theorem forall₂_alike {ts us : List ParseTree} (h : CommentedPath Harmless ts us) :
    List.Forall₂ Alike ts us := by
  induction h with
  | nil => exact .nil
  | cons h _ ih => exact .cons ⟨_, h⟩ ih

/-- The first named child of the child in a role that says what the node is about. -/
theorem rel_firstNamed?_of_child? {field : String} (h : Commented Harmless above t u)
    (hr : ∀ s : ParseTree, s.label.field = some field → ReadsFirst (t.kind :: above) s.label) :
    Option.Rel Alike ((t.child? field).bind firstNamed?) ((u.child? field).bind firstNamed?) := by
  refine rel_bind (h.rel_child?_with_field field) fun s r hsr => ?_
  exact rel_mono (rel_firstNamed? hsr.1 (hr s hsr.2)) fun _ _ h => ⟨_, h⟩

section
variable {s r : Site} (h : CommentedSite Harmless s r)
include h

theorem inFunction_of_commented : inFunction s = inFunction r := by
  refine any_eq_of_forall₂ (forall₂_alike h.above) fun _ _ h => ?_
  unfold isFunction
  rw [h.kind_eq]

theorem isExported_of_commented : isExported s = isExported r := by
  unfold isExported
  have habove := forall₂_alike h.above
  refine any_eq_of_rel (rel_find?_of_forall₂ habove fun _ _ h => ?_) fun _ _ h => ?_
  · rw [h.kind_eq]
  · rw [h.kind_eq]

theorem contextuallyTyped_of_commented : contextuallyTyped s = contextuallyTyped r := by
  unfold contextuallyTyped
  rw [h.tree.kind_eq]
  congr 1
  have habove := forall₂_alike h.above
  refine any_eq_of_rel (rel_find?_of_forall₂ habove fun _ _ h => ?_) fun p q hpq => ?_
  · rw [h.kind_eq]
  · obtain ⟨_, hpq⟩ := hpq
    rw [hpq.kind_eq, isSome_eq_of_rel (hpq.rel_child? "type")]

end

theorem isGenerator_of_commented {allowed : Insertion} (h : Commented allowed above t u) :
    isGenerator t = isGenerator u := by
  unfold isGenerator
  rw [h.kind_eq, h.any_kind_eq (· == "*") rfl]

namespace Parameter

theorem rel_binding? (h : Commented Harmless above t u) :
    Option.Rel (fun x y => Alike x.1 y.1 ∧ x.2 = y.2) (binding? t) (binding? u) := by
  unfold binding?
  rw [h.kind_eq]
  split
  case h_1 => exact .some ⟨⟨_, h⟩, rfl⟩
  case h_2 hk =>
    have hread : ReadsFirst above t.label := .inl (by change t.kind ∈ _; rw [hk]; decide)
    refine rel_map (rel_filter (rel_firstNamed? h hread) fun _ _ h => ?_) fun _ _ h => ?_
    · rw [h.kind_eq]
    · exact ⟨⟨_, h⟩, rfl⟩
  case h_3 => exact .none

theorem ofNode?_of_commented (source : List Char) (h : Commented Harmless above t u) :
    ofNode? source t = ofNode? source u := by
  have hmodifier :=
    h.any_kind_eq (fun kind => kind == "accessibility_modifier" || kind == "readonly") rfl
  unfold ofNode?
  rw [h.kind_eq, hmodifier, isSome_eq_of_rel (h.rel_child? "type"),
    isSome_eq_of_rel (h.rel_child? "value")]
  split
  · rfl
  · refine eq_of_rel (rel_bind (h.rel_child? "pattern") fun p q hpq => ?_)
    refine rel_bind (rel_binding? hpq) fun b c hbc => ?_
    obtain ⟨⟨_, hname⟩, hrest⟩ := hbc
    dsimp only
    rw [hname.text_eq, hname.start_eq, hrest]
    exact .some rfl

theorem ofNode?_comment (source : List Char) {c : ParseTree} (hc : IsComment c) :
    ofNode? source c = none := by
  unfold ofNode?
  rw [hc.kind]
  rfl

theorem ofFunction_of_commented (source : List Char) (h : Commented Harmless above t u) :
    ofFunction source t = ofFunction source u := by
  have hsingle := h.rel_child? "parameter"
  have hlist := h.rel_child? "parameters"
  unfold ofFunction
  generalize t.child? "parameter" = x, u.child? "parameter" = y at hsingle ⊢
  generalize t.child? "parameters" = v, u.child? "parameters" = w at hlist ⊢
  cases hsingle with
  | some h =>
    dsimp only
    rw [h.text_eq, h.start_eq]
  | none =>
    cases hlist with
    | none => rfl
    | some h =>
      exact h.filterMap_namedChildren_eq (fun _ hc => ofNode?_comment source hc)
        fun _ _ hsr => ofNode?_of_commented source hsr

end Parameter

theorem references_of_commented (source : List Char) (h : Commented Harmless [] t u) :
    (Program.mk source t).references = (Program.mk source u).references := by
  rw [references_eq_map_sites, references_eq_map_sites]
  refine map_eq_of_forall₂ (h.forall₂_sites (fun c hc _ => ?_) fun s r h => ?_) fun s r h => ?_
  · dsimp only
    rw [isReference, hc.kind]
    rfl
  · rw [isReference, isReference, h.tree.kind_eq]
  · rw [h.tree.text_eq, h.tree.start_eq]

theorem isModule_of_commented (source : List Char) (h : Commented Harmless [] t u) :
    (Program.mk source t).isModule = (Program.mk source u).isModule :=
  h.any_namedKind_eq (fun kind => kind == "import_statement" || kind == "export_statement") rfl

theorem isChecked_of_commented {s r : Site} (h : CommentedSite Harmless s r) :
    isChecked s = isChecked r := by
  unfold isChecked
  rw [h.tree.named_eq, h.tree.kind_eq]

theorem isChecked_comment {c : ParseTree} (hc : IsComment c) (above : List ParseTree) :
    isChecked ⟨c, above⟩ = false := by
  unfold isChecked
  rw [hc.kind, hc.named]
  decide

theorem isDeclaredName_of_commented {s r : Site} (h : CommentedSite Harmless s r) :
    isDeclaredName s = isDeclaredName r := by
  have hhead : s.above.head?.any (·.kind == "variable_declarator") =
      r.above.head?.any (·.kind == "variable_declarator") := by
    have habove := h.above
    generalize s.above = ts, r.above = us at habove ⊢
    cases habove with
    | nil => rfl
    | cons h _ =>
      rw [List.head?_cons, List.head?_cons, Option.any_some, Option.any_some, h.kind_eq]
  unfold isDeclaredName
  rw [h.tree.kind_eq, h.tree.field_eq, hhead]

theorem isDeclaredName_comment {c : ParseTree} (hc : IsComment c) (above : List ParseTree) :
    isDeclaredName ⟨c, above⟩ = false := by
  unfold isDeclaredName
  rw [hc.kind]
  rfl

theorem isLocal_of_commented {p q : Program} (hmodule : p.isModule = q.isModule) {s r : Site}
    (h : CommentedSite Harmless s r) : isLocal p s = isLocal q r := by
  unfold isLocal
  rw [hmodule, inFunction_of_commented h, isExported_of_commented h]

section
variable (o : Options)

theorem missingReturns_of_commented (source : List Char) {b c : ParseTree}
    (h : Commented Harmless above t u) (hbc : Commented Harmless (t.kind :: above) b c) :
    missingReturns source o t b = missingReturns source o u c := by
  have htype := rel_firstNamed?_of_child? h fun _ hs => .inr (.inl hs)
  have hname := h.rel_child? "name"
  unfold missingReturns
  rw [valueReturns_of_commented hbc, alwaysReturns_of_commented hbc (List.cons_ne_nil _ _)]
  generalize (t.child? "return_type").bind firstNamed? = v,
    (u.child? "return_type").bind firstNamed? = w at htype ⊢
  generalize t.child? "name" = x, u.child? "name" = y at hname ⊢
  have hstart : (x.getD t).start = (y.getD u).start := by
    cases hname with
    | none => exact h.start_eq.symm
    | some h => exact h.start_eq.symm
  cases htype with
  | none => rw [hstart]
  | some htype =>
    obtain ⟨_, htype⟩ := htype
    dsimp only
    rw [Option.any_some, Option.any_some, htype.text_eq, htype.start_eq, hstart]

theorem unusedParameters_of_commented (refs : List Reference) (h : Commented Harmless above t u)
    (parameters : List Parameter) :
    parameters.flatMap (unusedParameter refs o t) =
      parameters.flatMap (unusedParameter refs o u) := by
  have hwithin : ∀ name, referencesWithin refs name t = referencesWithin refs name u := by
    intro name
    unfold referencesWithin
    rw [h.start_eq, h.stop_eq]
  congr 1
  funext parameter
  unfold unusedParameter
  rw [hwithin]

variable {p q : Program} (hsource : p.source = q.source)
include hsource

theorem mismatch_of_commented (h : Commented Harmless above t u)
    (hk : t.kind = "variable_declarator") (start : ℕ) :
    mismatch p o t start = mismatch q o u start := by
  have htype := rel_firstNamed?_of_child? h fun _ hs => .inr (.inr ⟨hs, congrArg some hk⟩)
  have hvalue := h.rel_child? "value"
  have hdeclared : ((((t.child? "type").bind firstNamed?).filter
        (·.kind == "predefined_type")).map fun s => String.ofList (s.text p.source)) =
      ((((u.child? "type").bind firstNamed?).filter
        (·.kind == "predefined_type")).map fun s => String.ofList (s.text q.source)) := by
    refine eq_of_rel (rel_map (rel_filter htype fun _ _ h => ?_) fun _ _ h => ?_)
    · rw [h.kind_eq]
    · obtain ⟨_, h⟩ := h
      rw [h.text_eq, hsource]
  have hliteral : ((t.child? "value").bind fun v => literalType? v.kind) =
      (u.child? "value").bind fun v => literalType? v.kind := by
    generalize t.child? "value" = x, u.child? "value" = y at hvalue ⊢
    cases hvalue with
    | none => rfl
    | some h => exact congrArg literalType? h.kind_eq.symm
  unfold mismatch
  rw [hdeclared, hliteral]

variable (hmodule : p.isModule = q.isModule) (refs : List Reference) {s r : Site}
  (h : CommentedSite Harmless s r)
include hmodule h

theorem checkFunction_of_commented : checkFunction p refs o s = checkFunction q refs o r := by
  have hname := h.tree.rel_child? "name"
  have hbody := h.tree.rel_child? "body"
  have hunused : ((s.tree.child? "name").elim [] fun name =>
        unusedLocal refs o (name.text p.source) name.start) =
      (r.tree.child? "name").elim [] fun name =>
        unusedLocal refs o (name.text q.source) name.start := by
    generalize s.tree.child? "name" = x, r.tree.child? "name" = y at hname ⊢
    cases hname with
    | none => rfl
    | some h =>
      dsimp only [Option.elim]
      rw [h.text_eq, h.start_eq, hsource]
  unfold checkFunction
  dsimp only
  rw [hunused, Parameter.ofFunction_of_commented p.source h.tree, hsource,
    contextuallyTyped_of_commented h, isLocal_of_commented hmodule h, h.tree.kind_eq,
    isGenerator_of_commented h.tree]
  congr 1
  generalize s.tree.child? "body" = v, r.tree.child? "body" = w at hbody ⊢
  cases hbody with
  | none => rfl
  | some hb =>
    dsimp only
    rw [unusedParameters_of_commented o refs hb, hb.kind_eq,
      missingReturns_of_commented o q.source h.tree hb]

theorem checkDeclarator_of_commented (hd : isDeclaredName s = true) :
    checkDeclarator p refs o s = checkDeclarator q refs o r := by
  obtain ⟨tree, above⟩ := s
  obtain ⟨tree', above'⟩ := r
  obtain ⟨htree, habove⟩ := h
  cases habove with
  | nil => rfl
  | @cons d e ds es hde hs =>
    have hk : d.kind = "variable_declarator" := by
      unfold isDeclaredName at hd
      rw [Bool.and_eq_true] at hd
      exact beq_iff_eq.mp hd.2
    have hlocal : isLocal p ⟨d, ds⟩ = isLocal q ⟨e, es⟩ := isLocal_of_commented hmodule ⟨hde, hs⟩
    unfold checkDeclarator
    dsimp only
    rw [hlocal, mismatch_of_commented o hsource hde hk, htree.text_eq, htree.start_eq, hsource]

end

/-- Comments that are not taken for anything else change no finding. -/
theorem check_of_commented (source : List Char) (o : Options) (h : Commented Harmless [] t u) :
    check ⟨source, t⟩ o = check ⟨source, u⟩ o := by
  have hmodule := isModule_of_commented source h
  have hfunctions := h.forall₂_sites (fun _ => isChecked_comment) fun _ _ => isChecked_of_commented
  have hnames := h.forall₂_sites (fun _ => isDeclaredName_comment)
    fun _ _ => isDeclaredName_of_commented
  have hdeclared : ∀ s ∈ t.sites.filter isDeclaredName, isDeclaredName s = true :=
    fun s hs => (List.mem_filter.mp hs).2
  unfold check
  dsimp only
  rw [references_of_commented source h]
  congr 1
  · refine flatMap_eq_of_forall₂ hfunctions fun s r hsr => ?_
    exact checkFunction_of_commented o (by rfl) hmodule _ hsr
  · refine flatMap_eq_of_forall₂ ((List.forall₂_and_left _ _).mpr ⟨hdeclared, hnames⟩) ?_
    intro s r hsr
    exact checkDeclarator_of_commented o (by rfl) hmodule _ hsr.2 hsr.1

namespace Sample

def endless : List Char :=
  "function f(): number \x7b while (/* a */ true) \x7b /* b */ \x7d \x7d".toList

def comment (start stop : ℕ) : ParseTree := named "comment" start stop none []

theorem isComment_comment (start stop : ℕ) : IsComment (comment start stop) :=
  ⟨rfl, rfl, rfl, rfl⟩

def conditionOf (comments : List ParseTree) : ParseTree :=
  named "parenthesized_expression" 29 43 (some "condition")
    (token "(" 29 :: (comments ++ [named "true" 38 42 none [], token ")" 42]))

def bodyOf (comments : List ParseTree) : ParseTree :=
  named "statement_block" 44 55 (some "body")
    (token "\x7b" 44 :: (comments ++ [token "\x7d" 54]))

def loopOf (inCondition inBody : List ParseTree) : ParseTree :=
  named "while_statement" 23 55 none
    [token "while" 23, conditionOf inCondition, bodyOf inBody]

/-- The tree of the code with these comments. -/
def programOf (inCondition inBody : List ParseTree) : ParseTree :=
  named "program" 0 57 none [
    named "function_declaration" 0 57 none [token "function" 0,
      named "identifier" 9 10 (some "name") [],
      named "formal_parameters" 10 12 (some "parameters") [token "(" 10, token ")" 11],
      named "type_annotation" 12 20 (some "return_type") [token ":" 12,
        named "predefined_type" 14 20 none [token "number" 14]],
      named "statement_block" 21 57 (some "body") [token "\x7b" 21, loopOf inCondition inBody,
        token "\x7d" 56]]]

section
variable {allowed : Insertion} (hall : ∀ above l ts, allowed above l ts ts)
  {as bs cs ds : List ParseTree}
include hall

/-- Comments put into the loop are comments put into the program. -/
theorem commented_programOf
    (h : Commented allowed ["statement_block", "function_declaration", "program"]
      (loopOf as bs) (loopOf cs ds)) :
    Commented allowed [] (programOf as bs) (programOf cs ds) := by
  refine .of_child hall [] [] ?_
  refine .of_child hall [_, _, _, _] [] ?_
  exact .of_child hall [_] [_] h

end

/-- A comment in the body of the loop is harmless. -/
theorem check_programOf :
    Commented Harmless [] (programOf [] []) (programOf [] [comment 46 53]) ∧
      check ⟨endless, programOf [] []⟩ .allStrict =
        check ⟨endless, programOf [] [comment 46 53]⟩ .allStrict := by
  have hbody : Commented Harmless
      ["while_statement", "statement_block", "function_declaration", "program"]
      (bodyOf []) (bodyOf [comment 46 53]) := by
    refine .of_inserted harmless_refl (.keep _ (.comment (isComment_comment 46 53) (.refl _))) ?_
    exact ⟨fun h => absurd h (by decide), fun h => absurd h (by decide),
      fun h => absurd h (by decide)⟩
  have h : Commented Harmless [] (programOf [] []) (programOf [] [comment 46 53]) :=
    commented_programOf harmless_refl (.of_child harmless_refl [_, conditionOf []] [] hbody)
  exact ⟨h, check_of_commented endless .allStrict h⟩

/-- A comment before the condition of the loop is taken for the condition. -/
theorem not_check_of_comments_anywhere :
    ¬ ∀ source t u o, Commented (fun _ _ _ _ => True) [] t u →
      check ⟨source, t⟩ o = check ⟨source, u⟩ o := by
  intro h
  have hall : ∀ (above : List String) (l : NodeLabel) (ts : List ParseTree), True :=
    fun _ _ _ => trivial
  have hcondition : Commented (fun _ _ _ _ => True)
      ["while_statement", "statement_block", "function_declaration", "program"]
      (conditionOf []) (conditionOf [comment 30 37]) :=
    .of_inserted hall (.keep _ (.comment (isComment_comment 30 37) (.refl _))) trivial
  have hprogram := commented_programOf hall (.of_child hall [_] [bodyOf []] hcondition)
  have hcheck := h endless _ _ .allStrict hprogram
  exact absurd hcheck (by decide +kernel)

end Sample

end SnippetLint.TypeScript
