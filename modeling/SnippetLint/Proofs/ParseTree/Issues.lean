import Mathlib.Data.List.Forall2
import SnippetLint.Proofs.Analysis.Validity
import SnippetLint.Proofs.ParseTree.IssueReports

/-! The issues of a tree are its outermost error and missing nodes, in the order of the text.
Passing over subtrees without an error loses none of them. -/
namespace SnippetLint.ParseTree

/-- The node `u` at the place is an error or a missing node, and none of those above it is. -/
structure OutermostIssue (t : ParseTree) (place : List ℕ) (u : ParseTree) : Prop where
  here : t.at? place = some u
  isIssue : u.isIssue = true
  above : ∀ q v, q <+: place → q ≠ place → t.at? q = some v → v.isIssue = false

/-- Of each node `hasError` says whether it is or has below it an error or a missing node. -/
def HasErrorExact (t : ParseTree) : Prop :=
  ∀ place u, t.at? place = some u →
    (u.label.hasError = true ↔ ∃ q v, u.at? q = some v ∧ v.isIssue = true)

mutual

/-- The outermost error and missing nodes with their places, found without passing over any. -/
def outermostIssues : ParseTree → List (List ℕ × ParseTree)
  | node l cs =>
    if (node l cs).isIssue then [([], node l cs)] else outermostIssuesOfAll 0 cs

/-- The trees are children of one node, of which the first has the number `i`. -/
def outermostIssuesOfAll (i : ℕ) : List ParseTree → List (List ℕ × ParseTree)
  | [] => []
  | t :: ts => t.outermostIssues.map (fun p => (i :: p.1, p.2)) ++ outermostIssuesOfAll (i + 1) ts

end

variable {source : List Char} {t u c : ParseTree} {l : NodeLabel} {cs : List ParseTree}
  {place : List ℕ} {i : ℕ}

theorem outermostIssue_root (h : t.isIssue = true) :
    t.OutermostIssue place u ↔ place = [] ∧ u = t := by
  constructor
  · intro ho
    have hp : place = [] := by
      by_contra hne
      have := ho.above [] t List.nil_prefix (Ne.symm hne) rfl
      rw [h] at this
      exact absurd this (by decide)
    subst hp
    exact ⟨rfl, (Option.some.inj ho.here).symm⟩
  · rintro ⟨rfl, rfl⟩
    refine ⟨rfl, h, fun q _ hq hne _ => ?_⟩
    exact absurd (List.prefix_nil.mp hq) hne

theorem outermostIssue_below (h : t.isIssue = false) :
    t.OutermostIssue place u ↔
      ∃ j q c, place = j :: q ∧ t.children[j]? = some c ∧ c.OutermostIssue q u := by
  constructor
  · intro ho
    cases place with
    | nil =>
      obtain rfl : t = u := Option.some.inj ho.here
      exact absurd (h.symm.trans ho.isIssue) (by decide)
    | cons j q =>
      have hh := ho.here
      rw [at?_cons] at hh
      obtain ⟨c, hc, hq⟩ := Option.bind_eq_some_iff.mp hh
      refine ⟨j, q, c, rfl, hc, hq, ho.isIssue, fun r v hr hne hv => ?_⟩
      refine ho.above (j :: r) v (List.prefix_cons_inj j |>.mpr hr) (by simpa using hne) ?_
      rw [at?_of_child hc]
      exact hv
  · rintro ⟨j, q, c, rfl, hc, ho⟩
    refine ⟨(at?_of_child hc q).trans ho.here, ho.isIssue, fun r v hr hne hv => ?_⟩
    cases r with
    | nil =>
      obtain rfl : t = v := Option.some.inj hv
      exact h
    | cons k r =>
      obtain ⟨rfl, hpre⟩ := List.cons_prefix_cons.mp hr
      rw [at?_of_child hc] at hv
      exact ho.above r v hpre (by simpa using hne) hv

theorem outermostIssuesOfAll_eq (i : ℕ) (cs : List ParseTree) :
    outermostIssuesOfAll i cs = placed outermostIssues i cs := by
  induction cs generalizing i with
  | nil => rfl
  | cons c cs ih => rw [outermostIssuesOfAll, placed, ih]

theorem mem_outermostIssues : (place, u) ∈ t.outermostIssues ↔ t.OutermostIssue place u := by
  induction t using induction_on_children generalizing place with
  | h l cs ih =>
    rw [outermostIssues]
    split_ifs with h
    · rw [outermostIssue_root h, List.mem_singleton, Prod.mk.injEq]
    · rw [outermostIssue_below (by simpa using h), outermostIssuesOfAll_eq, mem_placed]
      constructor
      · rintro ⟨j, q, c, rfl, hc, hq⟩
        exact ⟨j, q, c, by rw [Nat.zero_add], hc, (ih c (List.mem_of_getElem? hc)).mp hq⟩
      · rintro ⟨j, q, c, rfl, hc, hq⟩
        exact ⟨j, q, c, by rw [Nat.zero_add], hc, (ih c (List.mem_of_getElem? hc)).mpr hq⟩

/-- The places come in the order of the text. -/
theorem pairwise_outermostIssues (t : ParseTree) :
    t.outermostIssues.Pairwise fun a b => List.Lex (· < ·) a.1 b.1 := by
  induction t using induction_on_children with
  | h l cs ih =>
    rw [outermostIssues]
    split_ifs
    · exact List.pairwise_singleton _ _
    · rw [outermostIssuesOfAll_eq]
      apply pairwise_placed
      · exact fun i a b h => .cons h
      · exact ih
      · exact List.pairwise_of_forall fun c d i j a b hij _ _ => .rel hij

/-- A node further down stands in the span of the one above. -/
theorem Nests.span_at (h : t.Nests) (hp : t.at? place = some u) :
    t.start ≤ u.start ∧ u.start ≤ u.stop ∧ u.stop ≤ t.stop := by
  induction h generalizing place with
  | @intro l cs span inside _ children ih =>
    cases place with
    | nil =>
      obtain rfl := Option.some.inj hp
      exact ⟨le_rfl, span, le_rfl⟩
    | cons j q =>
      obtain ⟨c, hc, hq⟩ := Option.bind_eq_some_iff.mp hp
      have hm := List.mem_of_getElem? hc
      obtain ⟨hstart, hstop⟩ := inside c hm
      obtain ⟨h₁, h₂, h₃⟩ := ih c hm hq
      exact ⟨hstart.trans h₁, h₂, h₃.trans hstop⟩

theorem Nests.pairwise_start (h : t.Nests) :
    t.outermostIssues.Pairwise fun a b => a.2.start ≤ b.2.start := by
  induction h with
  | @intro l cs _ _ ordered children ih =>
    rw [outermostIssues]
    split_ifs
    · exact List.pairwise_singleton _ _
    · rw [outermostIssuesOfAll_eq]
      apply pairwise_placed
      · exact fun i a b h => h
      · exact ih
      · refine ordered.imp_of_mem ?_
        intro c d hc hd hcd i j a b _ ha hb
        have ha := (children c hc).span_at (mem_outermostIssues.mp ha).here
        have hb := (children d hd).span_at (mem_outermostIssues.mp hb).here
        dsimp only
        omega

/-- Above an error there is an outermost one. -/
theorem exists_outermostIssue (hp : t.at? place = some u) (hu : u.isIssue = true) :
    ∃ q v, t.OutermostIssue q v := by
  induction place generalizing t with
  | nil =>
    obtain rfl : t = u := Option.some.inj hp
    exact ⟨[], t, (outermostIssue_root hu).mpr ⟨rfl, rfl⟩⟩
  | cons j q ih =>
    cases ht : t.isIssue with
    | true => exact ⟨[], t, (outermostIssue_root ht).mpr ⟨rfl, rfl⟩⟩
    | false =>
      obtain ⟨c, hc, hq⟩ := Option.bind_eq_some_iff.mp hp
      obtain ⟨r, v, hv⟩ := ih hq
      exact ⟨j :: r, v, (outermostIssue_below ht).mpr ⟨j, r, c, rfl, hc, hv⟩⟩

theorem HasErrorExact.of_child (h : t.HasErrorExact) (hc : c ∈ t.children) : c.HasErrorExact := by
  obtain ⟨j, hj⟩ := List.mem_iff_getElem?.mp hc
  intro place u hp
  exact h (j :: place) u ((at?_of_child hj place).trans hp)

theorem HasErrorExact.outermostIssues_eq_nil (h : t.HasErrorExact) :
    t.outermostIssues = [] ↔ t.label.hasError = false := by
  have hroot := h [] t rfl
  rw [← Bool.not_eq_true, hroot, List.eq_nil_iff_forall_not_mem]
  constructor
  · rintro hnone ⟨q, v, hv, hi⟩
    obtain ⟨r, w, hw⟩ := exists_outermostIssue hv hi
    exact hnone (r, w) (mem_outermostIssues.mpr hw)
  · rintro hnone ⟨q, v⟩ hv
    have ho := mem_outermostIssues.mp hv
    exact hnone ⟨q, v, ho.here, ho.isIssue⟩

/-- The issues of a node at a level. -/
def issuesBelow (source : List Char) (level : ℕ) (t : ParseTree) : List Issue :=
  t.outermostIssues.map fun p => Issue.ofNode source (level + p.1.length) p.2

theorem map_outermostIssuesOfAll (source : List Char) (level i : ℕ) (cs : List ParseTree) :
    (outermostIssuesOfAll i cs).map (fun p => Issue.ofNode source (level + p.1.length) p.2) =
      cs.flatMap (issuesBelow source (level + 1)) := by
  induction cs generalizing i with
  | nil => rfl
  | cons c cs ih =>
    rw [outermostIssuesOfAll, List.map_append, ih, List.map_map, List.flatMap_cons]
    congr 1
    apply List.map_congr_left
    rintro ⟨q, v⟩ -
    simp only [Function.comp_apply, List.length_cons]
    congr 1
    omega

/-- The nodes that wait have the issues that are left, in their order. -/
theorem issuesOfPending_eq (pending : List (ℕ × ParseTree))
    (h : ∀ p ∈ pending, p.2.HasErrorExact) :
    issuesOfPending source pending = pending.flatMap fun p => issuesBelow source p.1 p.2 := by
  fun_induction issuesOfPending source pending with
  | case1 => rfl
  | case2 level t rest hi ih =>
    have hrest := ih fun p hp => h p (List.mem_cons_of_mem _ hp)
    cases t with
    | node l cs =>
      rw [hrest, List.flatMap_cons, issuesBelow, outermostIssues, if_pos hi]
      rfl
  | case3 level t rest hi he ih =>
    have ht := h (level, t) List.mem_cons_self
    have hnext := ih fun p hp => by
      rcases List.mem_append.mp hp with hp | hp
      · obtain ⟨c, hc, rfl⟩ := List.mem_map.mp hp
        exact ht.of_child hc
      · exact h p (List.mem_cons_of_mem _ hp)
    have hbelow : issuesBelow source level t =
        t.children.flatMap (issuesBelow source (level + 1)) := by
      cases t with
      | node l cs =>
        rw [issuesBelow, outermostIssues, if_neg hi]
        exact map_outermostIssuesOfAll source level 0 cs
    rw [hnext, List.flatMap_append, List.flatMap_map, List.flatMap_cons, hbelow]
  | case4 level t rest hi he ih =>
    have ht := h (level, t) List.mem_cons_self
    have hrest := ih fun p hp => h p (List.mem_cons_of_mem _ hp)
    have hnil := ht.outermostIssues_eq_nil.mpr (by simpa using he)
    rw [hrest, List.flatMap_cons, issuesBelow, hnil]
    rfl

theorem issues_eq (source : List Char) (h : t.HasErrorExact) :
    t.issues source = t.outermostIssues.map fun p => Issue.ofNode source p.1.length p.2 := by
  unfold issues
  rw [issuesOfPending_eq _ (by simpa using h)]
  simp [issuesBelow]

theorem start_ofIssue (i : Issue) : (TypeScript.Finding.ofIssue i).start = i.start := by
  unfold TypeScript.Finding.ofIssue
  split
  · rfl
  · split_ifs <;> rfl

theorem syntactic_eq (source : List Char) (t : ParseTree) :
    List.Forall₂ (fun i f => f.category = .error ∧ f.start = i.start) (t.issues source)
      (TypeScript.syntactic source t) := by
  unfold TypeScript.syntactic
  rw [List.forall₂_map_right_iff, List.forall₂_same]
  exact fun i _ => ⟨TypeScript.Finding.category_ofIssue i, start_ofIssue i⟩

/-- Node after node, the issues are those of the outermost error and missing nodes. -/
theorem forall₂_reports (source : List Char) (h : t.HasErrorExact) :
    List.Forall₂ (fun a i => Issue.Reports source a.1 a.2 i) t.outermostIssues
      (t.issues source) := by
  rw [issues_eq source h, List.forall₂_map_right_iff, List.forall₂_same]
  exact fun a _ => Issue.reports_ofNode source a.1 a.2

theorem forall₂_syntactic (source : List Char) (h : t.HasErrorExact) :
    List.Forall₂ (fun a f => f.category = .error ∧ f.start = a.2.start) t.outermostIssues
      (TypeScript.syntactic source t) := by
  have hsyn := syntactic_eq source t
  rw [issues_eq source h, List.forall₂_map_left_iff] at hsyn
  exact hsyn

/-- Where `hasError` is exact and spans nest, the issues are those of the outermost error and
missing nodes, each once and in the order of the text. Each starts where its node does and says
what is wrong with it. There are none just if the root has no error, the first is the one of the
place before all others, and the compiler makes an error of each, which starts where its node
does. -/
theorem issues_outermost (source : List Char) {t : ParseTree} (hf : t.HasErrorExact)
    (hn : t.Nests) :
    ∃ ps : List (List ℕ × ParseTree),
      (∀ place u, (place, u) ∈ ps ↔ t.OutermostIssue place u) ∧
      (ps.Pairwise fun a b => List.Lex (· < ·) a.1 b.1) ∧
      t.issues source = ps.map (fun a => Issue.ofNode source a.1.length a.2) ∧
      List.Forall₂ (fun a i => Issue.Reports source a.1 a.2 i) ps (t.issues source) ∧
      ((t.issues source).Pairwise fun i j => i.start ≤ j.start) ∧
      (t.issues source = [] ↔ t.label.hasError = false) ∧
      (∀ i ∈ t.firstIssue? source, ∃ place u, t.OutermostIssue place u ∧
        i = Issue.ofNode source place.length u ∧ Issue.Reports source place u i ∧
        ∀ q v, t.OutermostIssue q v → q = place ∨ List.Lex (· < ·) place q) ∧
      (t.firstIssue? source = none ↔ t.issues source = []) ∧
      List.Forall₂ (fun i f => f.category = .error ∧ f.start = i.start) (t.issues source)
        (TypeScript.syntactic source t) ∧
      List.Forall₂ (fun a f => f.category = .error ∧ f.start = a.2.start) ps
        (TypeScript.syntactic source t) := by
  have heq := issues_eq source hf
  refine ⟨t.outermostIssues, fun place u => mem_outermostIssues, pairwise_outermostIssues t,
    heq, forall₂_reports source hf, ?_, ?_, ?_, firstIssue?_eq_none_iff, syntactic_eq source t,
    forall₂_syntactic source hf⟩
  · rw [heq, List.pairwise_map]
    exact hn.pairwise_start
  · rw [heq, List.map_eq_nil_iff, hf.outermostIssues_eq_nil]
  · intro i hi
    have hpw := pairwise_outermostIssues t
    have hmem : ∀ place u, (place, u) ∈ t.outermostIssues ↔ t.OutermostIssue place u :=
      fun _ _ => mem_outermostIssues
    unfold firstIssue? at hi
    rw [heq] at hi
    cases hps : t.outermostIssues with
    | nil =>
      rw [hps] at hi
      exact absurd hi (Option.not_mem_none i)
    | cons p rest =>
      rw [hps] at hi hpw hmem
      have hp : i = Issue.ofNode source p.1.length p.2 := (Option.some.inj hi).symm
      refine ⟨p.1, p.2, (hmem p.1 p.2).mp List.mem_cons_self, hp,
        hp ▸ Issue.reports_ofNode source p.1 p.2, ?_⟩
      intro q v hv
      rcases List.mem_cons.mp ((hmem q v).mpr hv) with h | h
      · exact Or.inl (congrArg Prod.fst h)
      · exact Or.inr ((List.pairwise_cons.mp hpw).1 (q, v) h)

/-- The flags are exact where they are at each node what those of its children make them. -/
theorem hasErrorExact_of_children
    (h : l.hasError = true ↔
      (node l cs).isIssue = true ∨ ∃ c ∈ cs, c.label.hasError = true)
    (hcs : ∀ c ∈ cs, c.HasErrorExact) : (node l cs).HasErrorExact := by
  intro place u hp
  cases place with
  | nil =>
    obtain rfl := Option.some.inj hp
    change l.hasError = true ↔ _
    rw [h]
    constructor
    · rintro (hi | ⟨c, hc, he⟩)
      · exact ⟨[], _, rfl, hi⟩
      · obtain ⟨j, hj⟩ := List.mem_iff_getElem?.mp hc
        obtain ⟨q, v, hv, hi⟩ := (hcs c hc [] c rfl).mp he
        exact ⟨j :: q, v, (at?_of_child hj q).trans hv, hi⟩
    · rintro ⟨_ | ⟨j, q⟩, v, hv, hi⟩
      · obtain rfl := Option.some.inj hv
        exact Or.inl hi
      · obtain ⟨c, hc, hq⟩ := Option.bind_eq_some_iff.mp hv
        have hm := List.mem_of_getElem? hc
        exact Or.inr ⟨c, hm, (hcs c hm [] c rfl).mpr ⟨q, v, hq, hi⟩⟩
  | cons j q =>
    obtain ⟨c, hc, hq⟩ := Option.bind_eq_some_iff.mp hp
    exact hcs c (List.mem_of_getElem? hc) q u hq

namespace Sample

theorem hasErrorExact_leaf (h : l.hasError = (l.isError || l.isMissing)) :
    (node l []).HasErrorExact := by
  apply hasErrorExact_of_children
  · simp [h, isIssue, label]
  · exact fun c hc => absurd hc List.not_mem_nil

theorem hasErrorExact_program : program.HasErrorExact := by
  have hleaf : ∀ l : NodeLabel, l.hasError = (l.isError || l.isMissing) →
      (node l []).HasErrorExact := fun _ h => hasErrorExact_leaf h
  apply hasErrorExact_of_children (by simp [declaration, call, label])
  simp only [List.forall_mem_cons, List.not_mem_nil, false_implies, implies_true, and_true]
  constructor
  · apply hasErrorExact_of_children (by simp [isIssue, label])
    simp only [List.forall_mem_cons, List.not_mem_nil, false_implies, implies_true, and_true]
    refine ⟨hleaf _ rfl, ?_, hleaf _ rfl, hleaf _ rfl⟩
    apply hasErrorExact_of_children (by simp [isIssue, label])
    simp only [List.forall_mem_cons, List.not_mem_nil, false_implies, implies_true, and_true]
    exact ⟨hleaf _ rfl, hleaf _ rfl⟩
  · apply hasErrorExact_of_children (by simp [isIssue, label])
    simp only [List.forall_mem_cons, List.not_mem_nil, false_implies, implies_true, and_true]
    exact ⟨hleaf _ rfl, hleaf _ rfl, hleaf _ rfl⟩

theorem issues_program :
    program.HasErrorExact ∧ program.Nests ∧
      program.issues "let = 1; f(".toList =
        [⟨4, .unexpected "", false⟩, ⟨11, .missing ")", false⟩] ∧
      ∃ ps : List (List ℕ × ParseTree),
        (∀ place u, (place, u) ∈ ps ↔ program.OutermostIssue place u) ∧
        List.Forall₂ (fun a i => Issue.Reports "let = 1; f(".toList a.1 a.2 i) ps
          (program.issues "let = 1; f(".toList) ∧
        List.Forall₂ (fun a f => f.category = .error ∧ f.start = a.2.start) ps
          (TypeScript.syntactic "let = 1; f(".toList program) := by
  have hissues : program.issues "let = 1; f(".toList =
      [⟨4, .unexpected "", false⟩, ⟨11, .missing ")", false⟩] := by
    rw [issues_eq _ hasErrorExact_program]
    decide
  obtain ⟨ps, hmem, -, -, hreports, -, -, -, -, -, hfound⟩ :=
    issues_outermost "let = 1; f(".toList hasErrorExact_program nests_program
  exact ⟨hasErrorExact_program, nests_program, hissues, ps, hmem, hreports, hfound⟩

end Sample
end SnippetLint.ParseTree
