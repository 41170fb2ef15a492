import SnippetLint.ParseTree.Basic
import SnippetLint.Proofs.Text.PaddedSearch

/-! Two trees of which one is the other with comments put in among the children of its nodes. The
grammar lets comments stand anywhere, and a comment is a named child like any other. -/
namespace SnippetLint.ParseTree
open Text

/-- A comment as it stands in a tree: a leaf that has no role. -/
structure IsComment (t : ParseTree) : Prop where
  kind : t.kind = "comment"
  named : t.named = true
  field : t.label.field = none
  leaf : t.children = []

/-- The second list is the first with comments put in. -/
inductive Inserted : List ParseTree → List ParseTree → Prop
  | nil : Inserted [] []
  | keep (t : ParseTree) {ts us : List ParseTree} (h : Inserted ts us) :
      Inserted (t :: ts) (t :: us)
  | comment {c : ParseTree} {ts us : List ParseTree} (hc : IsComment c) (h : Inserted ts us) :
      Inserted ts (c :: us)

namespace Inserted
variable {ts us : List ParseTree} {p : ParseTree → Bool}

theorem refl : ∀ ts : List ParseTree, Inserted ts ts
  | [] => .nil
  | t :: ts => .keep t (refl ts)

theorem filter_eq (h : Inserted ts us) (hp : ∀ c, IsComment c → p c = false) :
    us.filter p = ts.filter p := by
  induction h with
  | nil => rfl
  | keep t _ ih => rw [List.filter_cons, List.filter_cons, ih]
  | comment hc _ ih => rw [List.filter_cons, hp _ hc, ih, if_neg Bool.false_ne_true]

theorem find?_eq (h : Inserted ts us) (hp : ∀ c, IsComment c → p c = false) :
    us.find? p = ts.find? p := by
  rw [← List.head?_filter, ← List.head?_filter, h.filter_eq hp]

theorem any_eq (h : Inserted ts us) (hp : ∀ c, IsComment c → p c = false) :
    us.any p = ts.any p := by
  induction h with
  | nil => rfl
  | keep t _ ih => rw [List.any_cons, List.any_cons, ih]
  | comment hc _ ih => rw [List.any_cons, hp _ hc, ih, Bool.false_or]

theorem filterMap_eq {α : Type} {f : ParseTree → Option α} (h : Inserted ts us)
    (hf : ∀ c, IsComment c → f c = none) : us.filterMap f = ts.filterMap f := by
  induction h with
  | nil => rfl
  | keep t _ ih => rw [List.filterMap_cons, List.filterMap_cons, ih]
  | comment hc _ ih => rw [List.filterMap_cons_none (hf _ hc), ih]

end Inserted

/-- Where comments may be put in: the kinds of the nodes above, the nearest first, the label of the
node, and its children without and with them. -/
abbrev Insertion := List String → NodeLabel → List ParseTree → List ParseTree → Prop

mutual

/-- The second tree is the first with comments put in where it is allowed; `above` are the kinds of
the nodes above. -/
inductive Commented (allowed : Insertion) : List String → ParseTree → ParseTree → Prop
  | node {above : List String} {l : NodeLabel} {cs ds es : List ParseTree}
      (children : CommentedAll allowed (l.kind :: above) cs ds) (inserted : Inserted ds es)
      (here : allowed above l ds es) : Commented allowed above (.node l cs) (.node l es)

/-- Each tree of a list has comments put in. -/
inductive CommentedAll (allowed : Insertion) : List String → List ParseTree → List ParseTree → Prop
  | nil {above : List String} : CommentedAll allowed above [] []
  | cons {above : List String} {t u : ParseTree} {ts us : List ParseTree}
      (head : Commented allowed above t u) (tail : CommentedAll allowed above ts us) :
      CommentedAll allowed above (t :: ts) (u :: us)

end

variable {allowed : Insertion} {above : List String} {t u : ParseTree}

theorem CommentedAll.forall₂ {ts us : List ParseTree} (h : CommentedAll allowed above ts us) :
    List.Forall₂ (Commented allowed above) ts us := by
  induction ts generalizing us with
  | nil =>
    cases h
    exact .nil
  | cons t ts ih =>
    cases h with
    | cons head tail => exact .cons head (ih tail)

mutual

/-- Where it is allowed to leave the children as they are, a tree is itself without comments put
in. -/
theorem Commented.refl (hall : ∀ above l ts, allowed above l ts ts) (above : List String) :
    ∀ t : ParseTree, Commented allowed above t t
  | .node _ cs => .node (CommentedAll.refl hall _ cs) (.refl cs) (hall _ _ _)

theorem CommentedAll.refl (hall : ∀ above l ts, allowed above l ts ts) (above : List String) :
    ∀ ts : List ParseTree, CommentedAll allowed above ts ts
  | [] => .nil
  | t :: ts => .cons (Commented.refl hall above t) (CommentedAll.refl hall above ts)

end

section
variable (hall : ∀ above l ts, allowed above l ts ts)
include hall

/-- Comments are put in among the children of the root alone. -/
theorem Commented.of_inserted {l : NodeLabel} {cs es : List ParseTree} (hi : Inserted cs es)
    (ha : allowed above l cs es) : Commented allowed above (.node l cs) (.node l es) :=
  .node (CommentedAll.refl hall _ cs) hi ha

theorem CommentedAll.of_one (before after : List ParseTree) (h : Commented allowed above t u) :
    CommentedAll allowed above (before ++ t :: after) (before ++ u :: after) := by
  induction before with
  | nil => exact .cons h (CommentedAll.refl hall above after)
  | cons b before ih => exact .cons (Commented.refl hall above b) ih

/-- Comments are put in below one of the children alone. -/
theorem Commented.of_child {l : NodeLabel} (before after : List ParseTree)
    (h : Commented allowed (l.kind :: above) t u) :
    Commented allowed above (.node l (before ++ t :: after)) (.node l (before ++ u :: after)) :=
  .node (CommentedAll.of_one hall before after h) (.refl _) (hall _ _ _)

end

namespace Commented

theorem label_eq (h : Commented allowed above t u) : u.label = t.label := by
  cases h
  rfl

theorem kind_eq (h : Commented allowed above t u) : u.kind = t.kind :=
  congrArg NodeLabel.kind h.label_eq

theorem start_eq (h : Commented allowed above t u) : u.start = t.start :=
  congrArg NodeLabel.start h.label_eq

theorem stop_eq (h : Commented allowed above t u) : u.stop = t.stop :=
  congrArg NodeLabel.stop h.label_eq

theorem named_eq (h : Commented allowed above t u) : u.named = t.named :=
  congrArg NodeLabel.named h.label_eq

theorem field_eq (h : Commented allowed above t u) : u.label.field = t.label.field :=
  congrArg NodeLabel.field h.label_eq

theorem text_eq (h : Commented allowed above t u) (source : List Char) :
    u.text source = t.text source := by
  unfold text
  rw [h.start_eq, h.stop_eq]

/-- The comments below the children are put in first, and then those among them. -/
theorem exists_children (h : Commented allowed above t u) :
    ∃ ds, List.Forall₂ (Commented allowed (t.kind :: above)) t.children ds ∧
      Inserted ds u.children ∧ allowed above t.label ds u.children := by
  cases h with
  | node hcs hi ha => exact ⟨_, hcs.forall₂, hi, ha⟩

variable {p : ParseTree → Bool}

theorem forall₂_filter (h : Commented allowed above t u) (hc : ∀ c, IsComment c → p c = false)
    (hp : ∀ s r, Commented allowed (t.kind :: above) s r → p s = p r) :
    List.Forall₂ (Commented allowed (t.kind :: above)) (t.children.filter p)
      (u.children.filter p) := by
  obtain ⟨ds, hds, hi, -⟩ := h.exists_children
  rw [hi.filter_eq hc]
  exact List.rel_filter (fun s r hsr => by simp only [hp s r hsr]) hds

theorem rel_find? (h : Commented allowed above t u) (hc : ∀ c, IsComment c → p c = false)
    (hp : ∀ s r, Commented allowed (t.kind :: above) s r → p s = p r) :
    Option.Rel (Commented allowed (t.kind :: above)) (t.children.find? p) (u.children.find? p) := by
  obtain ⟨ds, hds, hi, -⟩ := h.exists_children
  rw [hi.find?_eq hc]
  exact rel_find?_of_forall₂ hds hp

theorem any_children_eq (h : Commented allowed above t u) (hc : ∀ c, IsComment c → p c = false)
    (hp : ∀ s r, Commented allowed (t.kind :: above) s r → p s = p r) :
    t.children.any p = u.children.any p := by
  obtain ⟨ds, hds, hi, -⟩ := h.exists_children
  rw [hi.any_eq hc]
  exact any_eq_of_forall₂ hds hp

theorem any_kind_eq (h : Commented allowed above t u) (f : String → Bool)
    (hf : f "comment" = false) :
    (t.children.any fun c => f c.kind) = u.children.any fun c => f c.kind := by
  refine h.any_children_eq (fun c hc => ?_) fun s r hsr => ?_
  · rw [hc.kind, hf]
  · rw [hsr.kind_eq]

theorem any_namedChildren_eq (h : Commented allowed above t u)
    (hc : ∀ c, IsComment c → p c = false)
    (hp : ∀ s r, Commented allowed (t.kind :: above) s r → p s = p r) :
    t.namedChildren.any p = u.namedChildren.any p := by
  unfold namedChildren
  rw [List.any_filter, List.any_filter]
  refine h.any_children_eq (fun c hcc => ?_) fun s r hsr => ?_
  · rw [hc c hcc, Bool.and_false]
  · rw [hsr.named_eq, hp s r hsr]

theorem any_namedKind_eq (h : Commented allowed above t u) (f : String → Bool)
    (hf : f "comment" = false) :
    (t.namedChildren.any fun c => f c.kind) = u.namedChildren.any fun c => f c.kind := by
  refine h.any_namedChildren_eq (fun c hc => ?_) fun s r hsr => ?_
  · rw [hc.kind, hf]
  · rw [hsr.kind_eq]

theorem filterMap_namedChildren_eq {α : Type} {f : ParseTree → Option α}
    (h : Commented allowed above t u) (hc : ∀ c, IsComment c → f c = none)
    (hf : ∀ s r, Commented allowed (t.kind :: above) s r → f s = f r) :
    t.namedChildren.filterMap f = u.namedChildren.filterMap f := by
  obtain ⟨ds, hds, hi, -⟩ := h.exists_children
  unfold namedChildren
  rw [List.filterMap_filter, List.filterMap_filter, hi.filterMap_eq]
  · refine filterMap_eq_of_forall₂ hds fun s r hsr => ?_
    rw [hsr.named_eq, hf s r hsr]
  · intro c hcc
    rw [hc c hcc, ite_self]

theorem rel_child? (h : Commented allowed above t u) (field : String) :
    Option.Rel (Commented allowed (t.kind :: above)) (t.child? field) (u.child? field) := by
  refine h.rel_find? (fun c hc => ?_) fun s r hsr => ?_
  · rw [hc.field]
    rfl
  · rw [hsr.field_eq]

theorem rel_child?_with_field (h : Commented allowed above t u) (field : String) :
    Option.Rel (fun s r => Commented allowed (t.kind :: above) s r ∧ s.label.field = some field)
      (t.child? field) (u.child? field) := by
  refine rel_mono (rel_and_mem (h.rel_child? field)) fun s r hsr => ⟨hsr.1, ?_⟩
  have hfield := List.find?_some (hsr.2.1 : t.children.find? (·.label.field == some field) = _)
  exact beq_iff_eq.mp hfield

theorem forall₂_childrenIn (h : Commented allowed above t u) (field : String) :
    List.Forall₂ (Commented allowed (t.kind :: above)) (t.childrenIn field)
      (u.childrenIn field) := by
  refine h.forall₂_filter (fun c hc => ?_) fun s r hsr => ?_
  · rw [hc.field]
    rfl
  · rw [hsr.field_eq]

end Commented

/-- Nodes one above the other, the lowest first, with comments put in below them. -/
inductive CommentedPath (allowed : Insertion) : List ParseTree → List ParseTree → Prop
  | nil : CommentedPath allowed [] []
  | cons {t u : ParseTree} {ts us : List ParseTree} (h : Commented allowed (ts.map kind) t u)
      (hs : CommentedPath allowed ts us) : CommentedPath allowed (t :: ts) (u :: us)

/-- Two sites with comments put in below the node and around it. -/
structure CommentedSite (allowed : Insertion) (s r : Site) : Prop where
  tree : Commented allowed (s.above.map kind) s.tree r.tree
  above : CommentedPath allowed s.above r.above

theorem IsComment.sitesUnder {c : ParseTree} (hc : IsComment c) (above : List ParseTree) :
    sitesUnder above c = [⟨c, above⟩] := by
  obtain ⟨l, cs⟩ := c
  obtain rfl : cs = [] := hc.leaf
  rfl

section
variable {p : Site → Bool} (hc : ∀ c, IsComment c → ∀ above, p ⟨c, above⟩ = false)
include hc

theorem Inserted.filter_sitesOfAll {ds es : List ParseTree} (h : Inserted ds es)
    (above : List ParseTree) :
    (sitesOfAll above es).filter p = (sitesOfAll above ds).filter p := by
  induction h with
  | nil => rfl
  | keep t _ ih => rw [sitesOfAll, sitesOfAll, List.filter_append, List.filter_append, ih]
  | comment h _ ih =>
    rw [sitesOfAll, List.filter_append, h.sitesUnder, List.filter_singleton, hc _ h, ih]
    rfl

end

mutual

/-- Of the sites that `p` holds of, and it holds of no comment, each has its counterpart. -/
theorem Commented.forall₂_sitesUnder {p : Site → Bool}
    (hc : ∀ c, IsComment c → ∀ above, p ⟨c, above⟩ = false)
    (hp : ∀ s r, CommentedSite allowed s r → p s = p r) {t u : ParseTree} {ts us : List ParseTree}
    (hpath : CommentedPath allowed ts us) :
    Commented allowed (ts.map kind) t u →
      List.Forall₂ (CommentedSite allowed) ((sitesUnder ts t).filter p)
        ((sitesUnder us u).filter p)
  | @Commented.node _ _ l cs ds es hcs hi ha => by
    have hhere : CommentedSite allowed ⟨.node l cs, ts⟩ ⟨.node l es, us⟩ :=
      ⟨.node hcs hi ha, hpath⟩
    have hbelow : List.Forall₂ (CommentedSite allowed)
        ((sitesOfAll (.node l cs :: ts) cs).filter p)
        ((sitesOfAll (.node l es :: us) es).filter p) := by
      rw [hi.filter_sitesOfAll hc]
      exact CommentedAll.forall₂_sitesOfAll hc hp (.cons hhere.tree hpath) hcs
    rw [sitesUnder, sitesUnder, List.filter_cons, List.filter_cons, hp _ _ hhere]
    split
    · exact .cons hhere hbelow
    · exact hbelow

theorem CommentedAll.forall₂_sitesOfAll {p : Site → Bool}
    (hc : ∀ c, IsComment c → ∀ above, p ⟨c, above⟩ = false)
    (hp : ∀ s r, CommentedSite allowed s r → p s = p r) {cs ds ts us : List ParseTree}
    (hpath : CommentedPath allowed ts us) :
    CommentedAll allowed (ts.map kind) cs ds →
      List.Forall₂ (CommentedSite allowed) ((sitesOfAll ts cs).filter p)
        ((sitesOfAll us ds).filter p)
  | .nil => .nil
  | .cons h hs => by
    rw [sitesOfAll, sitesOfAll, List.filter_append, List.filter_append]
    exact List.rel_append (Commented.forall₂_sitesUnder hc hp hpath h)
      (CommentedAll.forall₂_sitesOfAll hc hp hpath hs)

end

theorem Commented.forall₂_sites {p : Site → Bool}
    (hc : ∀ c, IsComment c → ∀ above, p ⟨c, above⟩ = false)
    (hp : ∀ s r, CommentedSite allowed s r → p s = p r) (h : Commented allowed [] t u) :
    List.Forall₂ (CommentedSite allowed) (t.sites.filter p) (u.sites.filter p) :=
  Commented.forall₂_sitesUnder hc hp .nil h

end SnippetLint.ParseTree
