import SnippetLint.Proofs.TypeScript.Sorting

/-! Findings under two sets of options. Flags that are set on top only add errors, and whatever the
flags are, the same untyped parameters and the same unused names are found. -/
namespace SnippetLint.TypeScript
open ParseTree

/-- Every flag that is set in the one is set in the other. -/
instance : LE Options where
  le o o' := o.strict ≤ o'.strict ∧ o.noImplicitAny ≤ o'.noImplicitAny ∧
    o.strictNullChecks ≤ o'.strictNullChecks ∧ o.noUnusedLocals ≤ o'.noUnusedLocals ∧
    o.noUnusedParameters ≤ o'.noUnusedParameters ∧ o.noImplicitReturns ≤ o'.noImplicitReturns

instance (o o' : Options) : Decidable (o ≤ o') := by
  unfold LE.le instLEOptions
  infer_instance

def errors (fs : List Finding) : List Finding := fs.filter (·.category == .error)

/-- Numbers of the findings that options make an error or a suggestion: names that are never read,
and parameters without a type. -/
def gradedCodes : List ℕ := [6133, 7006, 7019, 7044]

def graded (fs : List Finding) : List Finding := fs.filter (gradedCodes.contains ·.code)

/-- Two findings at one place that differ as options can make them differ: in the category, and
for a parameter that takes one argument in number and message. -/
inductive Regraded : Finding → Finding → Prop
  | unused (start : ℕ) (message : String) (c c' : Category) :
      Regraded ⟨6133, c, start, message⟩ ⟨6133, c', start, message⟩
  | rest (start : ℕ) (message : String) (c c' : Category) :
      Regraded ⟨7019, c, start, message⟩ ⟨7019, c', start, message⟩
  | parameter {code code' : ℕ} (start : ℕ) (message message' : String) (c c' : Category)
      (h : code = 7006 ∨ code = 7044) (h' : code' = 7006 ∨ code' = 7044) :
      Regraded ⟨code, c, start, message⟩ ⟨code', c', start, message'⟩

theorem Regraded.start_eq {f g : Finding} (h : Regraded f g) : f.start = g.start := by
  cases h <;> rfl

theorem errors_append (fs gs : List Finding) : errors (fs ++ gs) = errors fs ++ errors gs :=
  List.filter_append _ _

theorem graded_append (fs gs : List Finding) : graded (fs ++ gs) = graded fs ++ graded gs :=
  List.filter_append _ _

section
variable {α : Type} {f g : α → List Finding}

theorem errors_flatMap_sublist {as : List α} (h : ∀ a, (errors (f a)).Sublist (errors (g a))) :
    (errors (as.flatMap f)).Sublist (errors (as.flatMap g)) := by
  induction as with
  | nil => exact .refl _
  | cons a as ih =>
    rw [List.flatMap_cons, List.flatMap_cons, errors_append, errors_append]
    exact (h a).append ih

theorem regraded_append {fs fs' gs gs' : List Finding}
    (hf : List.Forall₂ Regraded (graded fs) (graded fs'))
    (hg : List.Forall₂ Regraded (graded gs) (graded gs')) :
    List.Forall₂ Regraded (graded (fs ++ gs)) (graded (fs' ++ gs')) := by
  rw [graded_append, graded_append]
  exact List.rel_append hf hg

theorem regraded_flatMap {as : List α}
    (h : ∀ a, List.Forall₂ Regraded (graded (f a)) (graded (g a))) :
    List.Forall₂ Regraded (graded (as.flatMap f)) (graded (as.flatMap g)) := by
  induction as with
  | nil => exact .nil
  | cons a as ih =>
    rw [List.flatMap_cons, List.flatMap_cons]
    exact regraded_append (h a) ih

end

theorem errors_graded_sublist {forbidden forbidden' : Bool} (h : forbidden ≤ forbidden')
    (code start : ℕ) (message : String) :
    (errors [.graded forbidden code start message]).Sublist
      (errors [.graded forbidden' code start message]) := by
  cases forbidden with
  | false => exact List.nil_sublist _
  | true =>
    have : forbidden' = true := h rfl
    rw [this]

theorem regraded_graded (forbidden forbidden' : Bool) (start : ℕ) (message : String) :
    List.Forall₂ Regraded (graded [.graded forbidden 6133 start message])
      (graded [.graded forbidden' 6133 start message]) :=
  .cons (.unused start message _ _) .nil

section
variable {o o' : Options} (h : o ≤ o')
include h

theorem forbidsImplicitAny_le : o.forbidsImplicitAny ≤ o'.forbidsImplicitAny := by
  intro ho
  rcases Bool.or_eq_true_iff.mp ho with ho | ho
  · exact Bool.or_eq_true_iff.mpr (.inl (h.1 ho))
  · exact Bool.or_eq_true_iff.mpr (.inr (h.2.1 ho))

theorem checksNulls_le : o.checksNulls ≤ o'.checksNulls := by
  intro ho
  rcases Bool.or_eq_true_iff.mp ho with ho | ho
  · exact Bool.or_eq_true_iff.mpr (.inl (h.1 ho))
  · exact Bool.or_eq_true_iff.mpr (.inr (h.2.2.1 ho))

theorem errors_implicitAny_sublist (p : Parameter) :
    (errors [implicitAny o p]).Sublist (errors [implicitAny o' p]) := by
  have hle := forbidsImplicitAny_le h
  unfold implicitAny
  cases ho : o.forbidsImplicitAny with
  | false => cases p.rest <;> exact List.nil_sublist _
  | true =>
    have ho' : o'.forbidsImplicitAny = true := hle ho
    rw [ho']

theorem errors_unusedLocal_sublist (refs : List Reference) (name : List Char) (start : ℕ) :
    (errors (unusedLocal refs o name start)).Sublist
      (errors (unusedLocal refs o' name start)) := by
  unfold unusedLocal
  split_ifs
  · exact .refl _
  · exact errors_graded_sublist h.2.2.2.1 _ _ _

theorem errors_unusedParameter_sublist (refs : List Reference) (body : ParseTree) (p : Parameter) :
    (errors (unusedParameter refs o body p)).Sublist
      (errors (unusedParameter refs o' body p)) := by
  unfold unusedParameter
  split_ifs
  · exact .refl _
  · exact errors_graded_sublist h.2.2.2.2.1 _ _ _

theorem errors_missingReturns_sublist (source : List Char) (f body : ParseTree) :
    (errors (missingReturns source o f body)).Sublist
      (errors (missingReturns source o' f body)) := by
  have hle : o.noImplicitReturns = true → o'.noImplicitReturns = true := h.2.2.2.2.2
  unfold missingReturns
  simp only [errors_append]
  refine (List.Sublist.refl _).append ?_
  cases ho : o.noImplicitReturns with
  | false => exact List.nil_sublist _
  | true => rw [hle ho]

theorem errors_mismatch_sublist (p : Program) (declarator : ParseTree) (start : ℕ) :
    (errors (mismatch p o declarator start)).Sublist
      (errors (mismatch p o' declarator start)) := by
  have hle : o.checksNulls = true → o'.checksNulls = true := checksNulls_le h
  unfold mismatch
  dsimp only
  split
  · cases ho : o.checksNulls with
    | false =>
      split_ifs with h₁ _ h₂
      · exact .refl _
      · exact List.nil_sublist _
      · -- What the stricter options allow, the others allow.
        refine absurd ?_ h₁
        simp only [Bool.or_eq_true, Bool.and_eq_true] at h₂ ⊢
        exact h₂.imp_right fun hnull => ⟨hnull.1, rfl⟩
      · exact .refl _
    | true => rw [hle ho]
  · exact .refl _

theorem errors_checkFunction_sublist (p : Program) (refs : List Reference) (s : Site) :
    (errors (checkFunction p refs o s)).Sublist (errors (checkFunction p refs o' s)) := by
  unfold checkFunction
  simp only [errors_append]
  refine (List.Sublist.append ?_ ?_).append ?_
  · split_ifs
    · exact .refl _
    · rw [List.map_eq_flatMap, List.map_eq_flatMap]
      exact errors_flatMap_sublist (errors_implicitAny_sublist h)
  · split_ifs
    · cases s.tree.child? "name" with
      | none => exact .refl _
      | some name => exact errors_unusedLocal_sublist h refs _ _
    · exact .refl _
  · cases s.tree.child? "body" with
    | none => exact .refl _
    | some body =>
      simp only [errors_append]
      refine List.Sublist.append (errors_flatMap_sublist ?_) ?_
      · exact errors_unusedParameter_sublist h refs body
      · split_ifs
        · exact errors_missingReturns_sublist h _ _ _
        · exact .refl _

theorem errors_checkDeclarator_sublist (p : Program) (refs : List Reference) (s : Site) :
    (errors (checkDeclarator p refs o s)).Sublist (errors (checkDeclarator p refs o' s)) := by
  unfold checkDeclarator
  split
  · exact .refl _
  · rw [errors_append, errors_append]
    refine List.Sublist.append ?_ (errors_mismatch_sublist h p _ _)
    split_ifs
    · exact errors_unusedLocal_sublist h refs _ _
    · exact .refl _

/-- Every error stays, in its place among the others. -/
theorem errors_check_sublist (p : Program) :
    (errors (check p o)).Sublist (errors (check p o')) := by
  unfold check
  simp only [errors_append]
  exact (errors_flatMap_sublist (errors_checkFunction_sublist h p _)).append
    (errors_flatMap_sublist (errors_checkDeclarator_sublist h p _))

theorem errors_semantic_sublist (p : Program) :
    (errors (semantic p o)).Sublist (errors (semantic p o')) := by
  unfold errors
  rw [semantic_eq, semantic_eq, filter_insertionSort, filter_insertionSort]
  exact sublist_insertionSort_of_sublist _ (errors_check_sublist h p)

end

section
variable (o o' : Options)

theorem regraded_implicitAny (p : Parameter) :
    List.Forall₂ Regraded (graded [implicitAny o p]) (graded [implicitAny o' p]) := by
  unfold implicitAny
  cases p.rest with
  | true => exact .cons (.rest _ _ _ _) .nil
  | false =>
    cases o.forbidsImplicitAny <;> cases o'.forbidsImplicitAny <;>
      exact .cons (.parameter _ _ _ _ _ (by decide) (by decide)) .nil

theorem regraded_unusedLocal (refs : List Reference) (name : List Char) (start : ℕ) :
    List.Forall₂ Regraded (graded (unusedLocal refs o name start))
      (graded (unusedLocal refs o' name start)) := by
  unfold unusedLocal
  split_ifs
  · exact .nil
  · exact regraded_graded _ _ _ _

theorem regraded_unusedParameter (refs : List Reference) (body : ParseTree) (p : Parameter) :
    List.Forall₂ Regraded (graded (unusedParameter refs o body p))
      (graded (unusedParameter refs o' body p)) := by
  unfold unusedParameter
  split_ifs
  · exact .nil
  · exact regraded_graded _ _ _ _

end

theorem graded_missingReturns (source : List Char) (o : Options) (f body : ParseTree) :
    graded (missingReturns source o f body) = [] := by
  unfold missingReturns
  dsimp only
  rw [graded_append, List.append_eq_nil_iff]
  constructor
  · split
    · split_ifs <;> rfl
    · rfl
  · split_ifs <;> rfl

theorem graded_mismatch (p : Program) (o : Options) (declarator : ParseTree) (start : ℕ) :
    graded (mismatch p o declarator start) = [] := by
  unfold mismatch
  dsimp only
  split
  · split_ifs <;> rfl
  · rfl

section
variable (o o' : Options)

theorem regraded_checkFunction (p : Program) (refs : List Reference) (s : Site) :
    List.Forall₂ Regraded (graded (checkFunction p refs o s))
      (graded (checkFunction p refs o' s)) := by
  unfold checkFunction
  refine regraded_append (regraded_append ?_ ?_) ?_
  · split_ifs
    · exact .nil
    · rw [List.map_eq_flatMap, List.map_eq_flatMap]
      exact regraded_flatMap (regraded_implicitAny o o')
  · split_ifs
    · cases s.tree.child? "name" with
      | none => exact .nil
      | some name => exact regraded_unusedLocal o o' refs _ _
    · exact .nil
  · cases s.tree.child? "body" with
    | none => exact .nil
    | some body =>
      refine regraded_append (regraded_flatMap (regraded_unusedParameter o o' refs body)) ?_
      split_ifs
      · rw [graded_missingReturns, graded_missingReturns]
        exact .nil
      · exact .nil

theorem regraded_checkDeclarator (p : Program) (refs : List Reference) (s : Site) :
    List.Forall₂ Regraded (graded (checkDeclarator p refs o s))
      (graded (checkDeclarator p refs o' s)) := by
  unfold checkDeclarator
  split
  · exact .nil
  · refine regraded_append ?_ ?_
    · split_ifs
      · exact regraded_unusedLocal o o' refs _ _
      · exact .nil
    · rw [graded_mismatch, graded_mismatch]
      exact .nil

theorem regraded_check (p : Program) :
    List.Forall₂ Regraded (graded (check p o)) (graded (check p o')) :=
  regraded_append (regraded_flatMap (regraded_checkFunction o o' p _))
    (regraded_flatMap (regraded_checkDeclarator o o' p _))

/-- Untyped parameters and unused names are found at the same places under all options. -/
theorem regraded_semantic (p : Program) :
    List.Forall₂ Regraded (graded (semantic p o)) (graded (semantic p o')) := by
  unfold graded
  rw [semantic_eq, semantic_eq, filter_insertionSort, filter_insertionSort]
  refine forall₂_insertionSort ?_ (regraded_check o o' p)
  intro f g f' g' hf hg
  unfold Finding.NotAfter
  rw [hf.start_eq, hg.start_eq]

end

end SnippetLint.TypeScript
