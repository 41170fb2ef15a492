import SnippetLint.Proofs.ParseTree.Nodes

/-! Places of the nodes of a tree whose spans nest. Of two nodes the later one is below the other
or starts where that one ends. So among nodes with width none of which is below another each is
known by where it starts, and those that start in the span of a node are the ones below it. -/
namespace SnippetLint.ParseTree

variable {t c n scope : ParseTree} {above ts : List ParseTree} {r s : Site}

theorem sitesOfAll_eq (above ts : List ParseTree) :
    sitesOfAll above ts = ts.flatMap (sitesUnder above) := by
  induction ts with
  | nil => rfl
  | cons t ts ih => rw [sitesOfAll, ih, List.flatMap_cons]

theorem mem_sitesUnder :
    s ∈ sitesUnder above t ↔ s = ⟨t, above⟩ ∨ ∃ c ∈ t.children, s ∈ sitesUnder (t :: above) c := by
  cases t with
  | node l cs =>
    rw [sitesUnder, List.mem_cons, sitesOfAll_eq, List.mem_flatMap]
    rfl

theorem mem_nodes_of_mem_sitesUnder (h : s ∈ sitesUnder above t) : s.tree ∈ t.nodes := by
  rw [nodes_eq, ← map_tree_sitesUnder above t]
  exact List.mem_map_of_mem h

/-- What stands above the tree stands above all of its sites. -/
theorem suffix_above (h : s ∈ sitesUnder above t) : above <:+ s.above := by
  induction t using induction_on_children generalizing above with
  | h l cs ih =>
    rcases mem_sitesUnder.mp h with rfl | ⟨c, hc, hs⟩
    · exact List.suffix_rfl
    · exact (List.suffix_cons _ above).trans (ih c hc hs)

theorem child_mem_sitesUnder (h : s ∈ sitesUnder above t) (hc : c ∈ s.tree.children) :
    ⟨c, s.tree :: s.above⟩ ∈ sitesUnder above t := by
  induction t using induction_on_children generalizing above with
  | h l cs ih =>
    rw [mem_sitesUnder] at h ⊢
    rcases h with rfl | ⟨d, hd, hs⟩
    · exact .inr ⟨c, hc, mem_sitesUnder.mpr (.inl rfl)⟩
    · exact .inr ⟨d, hd, ih d hd hs⟩

/-- A site of the tree has the sites of its children below it. -/
theorem child_mem_sites (h : s ∈ t.sites) (hc : c ∈ s.tree.children) :
    ⟨c, s.tree :: s.above⟩ ∈ t.sites :=
  child_mem_sitesUnder h hc

theorem field_of_child? {field : String} (h : t.child? field = some c) :
    c.label.field = some field := by
  have hfound := List.find?_some h
  exact beq_iff_eq.mp hfound

/-- The marked nodes of a tree take up some of its text, and none of them is below another. -/
structure Scattered (p : ParseTree → Bool) (t : ParseTree) : Prop where
  wide : ∀ n ∈ t.nodes, p n = true → n.start < n.stop
  apart : ∀ n ∈ t.nodes, p n = true → ∀ c ∈ n.children, ∀ m ∈ c.nodes, p m = false

namespace Scattered
variable {p q : ParseTree → Bool}

theorem child (h : Scattered p t) (hc : c ∈ t.children) : Scattered p c where
  wide n hn := h.wide n (mem_nodes_of_child hc hn)
  apart n hn := h.apart n (mem_nodes_of_child hc hn)

theorem imp (h : Scattered p t) (hqp : ∀ n, q n = true → p n = true) : Scattered q t where
  wide n hn hqn := h.wide n hn (hqp n hqn)
  apart n hn hqn c hc m hm := by
    have hpm := h.apart n hn (hqp n hqn) c hc m hm
    exact Bool.eq_false_iff.mpr fun hqm => Bool.eq_false_iff.mp hpm (hqp m hqm)

end Scattered

namespace Nests

theorem of_mem_nodes (h : t.Nests) (hn : n ∈ t.nodes) : n.Nests := by
  induction h with
  | @intro l cs span inside ordered children ih =>
    rw [nodes_eq] at hn
    rcases List.mem_cons.mp hn with rfl | hn
    · exact .intro span inside ordered children
    · obtain ⟨c, hc, hn⟩ := List.mem_flatMap.mp hn
      exact ih c hc hn

/-- The span of a node holds those of all nodes below it. -/
theorem span_of_mem_nodes (h : t.Nests) (hn : n ∈ t.nodes) :
    t.start ≤ n.start ∧ n.start ≤ n.stop ∧ n.stop ≤ t.stop := by
  induction h with
  | @intro l cs span inside _ _ ih =>
    rw [nodes_eq] at hn
    rcases List.mem_cons.mp hn with rfl | hn
    · exact ⟨Nat.le_refl _, span, Nat.le_refl _⟩
    · obtain ⟨c, hc, hn⟩ := List.mem_flatMap.mp hn
      obtain ⟨hstart, hstop⟩ := inside c hc
      obtain ⟨h₁, h₂, h₃⟩ := ih c hc hn
      exact ⟨Nat.le_trans hstart h₁, h₂, Nat.le_trans h₃ hstop⟩

theorem children_ordered (h : t.Nests) : t.children.Pairwise fun c d => c.stop ≤ d.start := by
  cases h with
  | intro _ _ ordered _ => exact ordered

/-- Nodes come in the order of the text. -/
theorem pairwise_sitesUnder (h : t.Nests) (above : List ParseTree) :
    (sitesUnder above t).Pairwise fun r s =>
      ((∃ c ∈ r.tree.children, s.tree ∈ c.nodes) ∧ r.above.length < s.above.length) ∨
        r.tree.stop ≤ s.tree.start := by
  induction h generalizing above with
  | @intro l cs _ _ ordered children ih =>
    rw [sitesUnder, List.pairwise_cons, sitesOfAll_eq, List.pairwise_flatMap]
    refine ⟨fun s hs => ?_, fun c hc => ih c hc _, ordered.imp_of_mem fun hc hd hcd r hr s hs => ?_⟩
    · obtain ⟨c, hc, hs⟩ := List.mem_flatMap.mp hs
      exact .inl ⟨⟨c, hc, mem_nodes_of_mem_sitesUnder hs⟩, (suffix_above hs).length_le⟩
    · have hrc := (children _ hc).span_of_mem_nodes (mem_nodes_of_mem_sitesUnder hr)
      have hsd := (children _ hd).span_of_mem_nodes (mem_nodes_of_mem_sitesUnder hs)
      exact .inr (Nat.le_trans hrc.2.2 (Nat.le_trans hcd hsd.1))

/-- No node with width stands at two places. -/
theorem pairwise_ne (h : t.Nests) :
    t.sites.Pairwise fun r s => r.tree.start < r.tree.stop → r ≠ s := by
  refine (h.pairwise_sitesUnder []).imp fun hrs hwide => ?_
  rintro rfl
  rcases hrs with ⟨-, hlength⟩ | hle
  · exact Nat.lt_irrefl _ hlength
  · exact Nat.not_lt.mpr hle hwide

variable {p : ParseTree → Bool}

theorem pairwise_marked_sites (h : t.Nests) (hp : Scattered p t) :
    t.sites.Pairwise fun r s =>
      p r.tree = true → p s.tree = true → r.tree.start < s.tree.start := by
  refine (h.pairwise_sitesUnder []).imp_of_mem fun hr _ hrs hpr hps => ?_
  have hmem := mem_nodes_of_mem_sitesUnder hr
  rcases hrs with ⟨⟨c, hc, hs⟩, -⟩ | hle
  · exact absurd hps (Bool.eq_false_iff.mp (hp.apart _ hmem hpr c hc _ hs))
  · exact Nat.lt_of_lt_of_le (hp.wide _ hmem hpr) hle

theorem pairwise_marked (h : t.Nests) (hp : Scattered p t) :
    t.nodes.Pairwise fun m n => p m = true → p n = true → m.start < n.start :=
  List.pairwise_map.mpr (h.pairwise_marked_sites hp)

/-- Two marked nodes that start at one place are one. -/
theorem eq_of_start_eq (h : t.Nests) (hp : Scattered p t) (hr : r ∈ t.sites) (hs : s ∈ t.sites)
    (hpr : p r.tree = true) (hps : p s.tree = true) (heq : r.tree.start = s.tree.start) :
    r = s := by
  have hordered := h.pairwise_marked_sites hp
  refine List.Pairwise.forall_of_forall_of_flip
    (R := fun r s : Site =>
      p r.tree = true → p s.tree = true → r.tree.start = s.tree.start → r = s)
    (fun _ _ _ _ _ => rfl) (hordered.imp fun hlt hpr hps heq => ?_)
    (hordered.imp fun hlt hpr hps heq => ?_) hr hs hpr hps heq
  · exact absurd heq (Nat.ne_of_lt (hlt hpr hps))
  · exact absurd heq.symm (Nat.ne_of_lt (hlt hps hpr))

/-- What ends before the span starts, or starts where it ends or later, has no marked node in it. -/
theorem filter_nodes_apart {ds : List ParseTree} {start stop : ℕ}
    (hp : ∀ d ∈ ds, Scattered p d)
    (hds : ∀ d ∈ ds, d.Nests ∧ (d.stop ≤ start ∨ stop ≤ d.start)) :
    (ds.flatMap nodes).filter (fun n => p n && (start ≤ n.start && n.start < stop)) = [] := by
  rw [List.filter_eq_nil_iff]
  intro n hn hpn
  obtain ⟨d, hd, hn⟩ := List.mem_flatMap.mp hn
  obtain ⟨hnests, hapart⟩ := hds d hd
  simp only [Bool.and_eq_true, decide_eq_true_eq] at hpn
  have hwide := (hp d hd).wide n hn hpn.1
  have hspan := hnests.span_of_mem_nodes hn
  omega

/-- The marked nodes that start in the span of a node are those below it, but where the node is
below a marked one. -/
theorem filter_nodes_within (h : t.Nests) (hp : Scattered p t) (hs : scope ∈ t.nodes)
    (hscope : ∀ n ∈ t.nodes, p n = true → ∀ c ∈ n.children, scope ∉ c.nodes) :
    (t.nodes.filter fun n => p n && (scope.start ≤ n.start && n.start < scope.stop)) =
      scope.nodes.filter p := by
  induction h with
  | @intro l cs span inside ordered nests ih =>
    rw [nodes_eq] at hs
    rcases List.mem_cons.mp hs with rfl | hs
    · refine List.filter_congr fun n hn => ?_
      have hspan := (Nests.intro span inside ordered nests).span_of_mem_nodes hn
      cases hpn : p n with
      | false => rfl
      | true =>
        have hwide := hp.wide n hn hpn
        simp only [Bool.true_and, Bool.and_eq_true, decide_eq_true_eq]
        omega
    · obtain ⟨c, hc, hs⟩ := List.mem_flatMap.mp hs
      have hroot : p (node l cs) = false :=
        Bool.eq_false_iff.mpr fun hpt => hscope _ (mem_nodes_self _) hpt c hc hs
      have hspan := (nests c hc).span_of_mem_nodes hs
      have hpc : ∀ d ∈ cs, Scattered p d := fun d hd => hp.child hd
      have hwithin := ih c hc (hpc c hc) hs fun n hn => hscope n (mem_nodes_of_child hc hn)
      -- the other children are apart from the span
      obtain ⟨before, after, rfl⟩ := List.append_of_mem hc
      obtain ⟨-, hafter, hbefore⟩ := List.pairwise_append.mp ordered
      have hmem : ∀ d ∈ after, d ∈ before ++ c :: after :=
        fun d hd => List.mem_append_right _ (List.mem_cons_of_mem c hd)
      have hb : (before.flatMap nodes).filter
          (fun n => p n && (scope.start ≤ n.start && n.start < scope.stop)) = [] :=
        filter_nodes_apart (fun d hd => hpc d (List.mem_append_left _ hd)) fun d hd =>
          ⟨nests d (List.mem_append_left _ hd),
            .inl (Nat.le_trans (hbefore d hd c List.mem_cons_self) hspan.1)⟩
      have ha : (after.flatMap nodes).filter
          (fun n => p n && (scope.start ≤ n.start && n.start < scope.stop)) = [] :=
        filter_nodes_apart (fun d hd => hpc d (hmem d hd)) fun d hd =>
          ⟨nests d (hmem d hd),
            .inr (Nat.le_trans hspan.2.2 ((List.pairwise_cons.mp hafter).1 d hd))⟩
      rw [nodes_eq, List.filter_cons, hroot, Bool.false_and, if_neg Bool.false_ne_true]
      change ((before ++ c :: after).flatMap nodes).filter _ = _
      rw [List.flatMap_append, List.flatMap_cons, List.filter_append, List.filter_append, hb, ha,
        List.nil_append, List.append_nil, hwithin]

end Nests

end SnippetLint.ParseTree
