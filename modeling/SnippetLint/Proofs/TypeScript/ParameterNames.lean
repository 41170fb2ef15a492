import SnippetLint.Proofs.TypeScript.Parts
import SnippetLint.Proofs.TypeScript.References

/-! Where the names of parameters stand, and that the place of a name tells which parameter of which
function it names. -/
namespace SnippetLint.TypeScript
open ParseTree

variable {source : List Char} {t c pattern : ParseTree} {f g r : Site} {q q' : Parameter}

namespace Parameter

def nodeKinds : List String := ["required_parameter", "optional_parameter"]

theorem binding?_eq_some {rest : Bool} (h : binding? pattern = some (c, rest)) :
    c.kind = "identifier" ∧ (rest = false ∧ c = pattern ∨
      rest = true ∧ pattern.kind = "rest_pattern" ∧ pattern.firstNamed? = some c) := by
  unfold binding? at h
  split at h
  case h_1 hk =>
    obtain ⟨rfl, rfl⟩ := Prod.mk.inj (Option.some.inj h)
    exact ⟨hk, .inl ⟨rfl, rfl⟩⟩
  case h_2 hk =>
    obtain ⟨inner, hinner, h⟩ := Option.map_eq_some_iff.mp h
    obtain ⟨rfl, rfl⟩ := Prod.mk.inj h
    obtain ⟨hfirst, hki⟩ := Option.filter_eq_some_iff.mp hinner
    exact ⟨beq_iff_eq.mp hki, .inr ⟨rfl, hk, hfirst⟩⟩
  case h_3 => exact absurd h (Option.some_ne_none _).symm

theorem ofNode?_eq_some (h : ofNode? source t = some q) :
    t.kind ∈ nodeKinds ∧ ∃ pattern c, t.child? "pattern" = some pattern ∧
      binding? pattern = some (c, q.rest) ∧ q.name = c.text source ∧ q.start = c.start := by
  unfold ofNode? at h
  split_ifs at h with hk
  obtain ⟨pattern, hp, h⟩ := Option.bind_eq_some_iff.mp h
  obtain ⟨⟨c, rest⟩, hb, h⟩ := Option.bind_eq_some_iff.mp h
  obtain rfl := Option.some.inj h
  refine ⟨?_, pattern, c, hp, hb, rfl, rfl⟩
  simpa [nodeKinds, imp_iff_not_or] using hk

theorem kind_node_ne (h : ofNode? source t = some q) : t.kind ≠ "rest_pattern" := by
  intro hk
  have hmem := (ofNode?_eq_some h).1
  rw [hk] at hmem
  exact absurd hmem (by decide)

theorem not_isFunction_node (h : ofNode? source t = some q) : ¬ isFunction t = true := by
  have hdisjoint : ∀ k ∈ nodeKinds, k ∉ functionKinds := by decide
  exact fun hf => hdisjoint _ (ofNode?_eq_some h).1 (List.contains_iff_mem.mp hf)

theorem kind_dots (h : binding? pattern = some (c, true)) : pattern.kind = "rest_pattern" := by
  obtain ⟨-, ⟨h, -⟩ | ⟨-, hk, -⟩⟩ := binding?_eq_some h
  · exact absurd h (by decide)
  · exact hk

theorem firstNamed_dots (h : binding? pattern = some (c, true)) :
    pattern.firstNamed? = some c := by
  obtain ⟨-, ⟨h, -⟩ | ⟨-, -, hfirst⟩⟩ := binding?_eq_some h
  · exact absurd h (by decide)
  · exact hfirst

theorem not_isFunction_dots (h : binding? pattern = some (c, true)) :
    ¬ isFunction pattern = true := by
  rw [isFunction, kind_dots h]
  decide

theorem start_of_ofNode? (h : ofNode? source t = some q) (hn : t.Nests) (hname : q.name ≠ []) :
    t.start ≤ q.start ∧ q.start < t.stop := by
  obtain ⟨-, pattern, c, hp, hb, htext, hstart⟩ := ofNode?_eq_some h
  have hc : c ∈ pattern.nodes := by
    obtain ⟨-, ⟨-, rfl⟩ | ⟨-, -, hfirst⟩⟩ := binding?_eq_some hb
    · exact mem_nodes_self c
    · have hmem := List.mem_filter.mp (List.mem_of_mem_head? hfirst)
      exact mem_nodes_of_child hmem.1 (mem_nodes_self c)
  have hspan := hn.span_of_mem_nodes (mem_nodes_of_child (mem_children_of_child? hp) hc)
  have hwide : c.start < c.stop := lt_of_byteSlice_ne_nil (htext ▸ hname)
  omega

/-- The parameters of one function have their names one behind the other. -/
theorem pairwise_start (hn : t.Nests) : (ofFunction source t).Pairwise fun x y =>
    x.name ≠ [] → y.name ≠ [] → x.start < y.start := by
  unfold ofFunction
  split
  case h_1 => exact List.pairwise_singleton _ _
  case h_2 =>
    split
    case h_1 list hlist =>
      have hl : list.Nests :=
        hn.of_mem_nodes (mem_nodes_of_child (mem_children_of_child? hlist) (mem_nodes_self list))
      rw [List.pairwise_filterMap]
      refine (hl.children_ordered.filter _).imp_of_mem fun {a b} ha hb hab x hx y hy hxn hyn => ?_
      have hna := hl.of_mem_nodes (mem_nodes_of_child (List.mem_filter.mp ha).1 (mem_nodes_self a))
      have hnb := hl.of_mem_nodes (mem_nodes_of_child (List.mem_filter.mp hb).1 (mem_nodes_self b))
      have hx := start_of_ofNode? hx hna hxn
      have hy := start_of_ofNode? hy hnb hyn
      omega
    case h_2 => exact .nil

end Parameter

/-- The name of the parameter `q` of the function at `f` stands at the site: right below an arrow
function, or below the list of parameters, where three dots may come before it. -/
inductive NameOf (source : List Char) (f : Site) : Parameter → Site → Prop
  | single {c : ParseTree} (hc : f.tree.child? "parameter" = some c) :
      NameOf source f ⟨c.text source, c.start, false, false, false⟩ ⟨c, f.tree :: f.above⟩
  | plain {list t c : ParseTree} {q : Parameter} (hlist : f.tree.child? "parameters" = some list)
      (ht : t ∈ list.namedChildren) (hq : Parameter.ofNode? source t = some q)
      (hc : t.child? "pattern" = some c) (hb : Parameter.binding? c = some (c, false)) :
      NameOf source f q ⟨c, t :: list :: f.tree :: f.above⟩
  | rest {list t pattern c : ParseTree} {q : Parameter}
      (hlist : f.tree.child? "parameters" = some list) (ht : t ∈ list.namedChildren)
      (hq : Parameter.ofNode? source t = some q) (hp : t.child? "pattern" = some pattern)
      (hb : Parameter.binding? pattern = some (c, true)) :
      NameOf source f q ⟨c, pattern :: t :: list :: f.tree :: f.above⟩

theorem exists_nameOf (h : q ∈ Parameter.ofFunction source f.tree) :
    ∃ r, NameOf source f q r := by
  unfold Parameter.ofFunction at h
  split at h
  case h_1 c hc =>
    obtain rfl := List.mem_singleton.mp h
    exact ⟨_, .single hc⟩
  case h_2 =>
    split at h
    case h_1 list hlist =>
      obtain ⟨t, ht, hq⟩ := List.mem_filterMap.mp h
      obtain ⟨-, pattern, c, hp, hb, -, -⟩ := Parameter.ofNode?_eq_some hq
      cases hrest : q.rest with
      | false =>
        rw [hrest] at hb
        obtain ⟨-, ⟨-, rfl⟩ | ⟨h, -⟩⟩ := Parameter.binding?_eq_some hb
        · exact ⟨_, .plain hlist ht hq hp hb⟩
        · exact absurd h (by decide)
      | true =>
        rw [hrest] at hb
        exact ⟨_, .rest hlist ht hq hp hb⟩
    case h_2 => exact absurd h List.not_mem_nil

namespace NameOf

theorem name_eq (h : NameOf source f q r) :
    q.name = r.tree.text source ∧ q.start = r.tree.start := by
  cases h with
  | single => exact ⟨rfl, rfl⟩
  | plain hlist ht hq hc hb =>
    obtain ⟨-, pattern, c, hp, hbinding, hname, hstart⟩ := Parameter.ofNode?_eq_some hq
    obtain rfl := Option.some.inj (hp.symm.trans hc)
    obtain ⟨rfl, -⟩ := Prod.mk.inj (Option.some.inj (hbinding.symm.trans hb))
    exact ⟨hname, hstart⟩
  | rest hlist ht hq hp hb =>
    obtain ⟨-, pattern, c, hpattern, hbinding, hname, hstart⟩ := Parameter.ofNode?_eq_some hq
    obtain rfl := Option.some.inj (hpattern.symm.trans hp)
    obtain ⟨rfl, -⟩ := Prod.mk.inj (Option.some.inj (hbinding.symm.trans hb))
    exact ⟨hname, hstart⟩

theorem mem_sitesUnder {root : ParseTree} {above : List ParseTree} (h : NameOf source f q r)
    (hf : f ∈ sitesUnder above root) : r ∈ sitesUnder above root := by
  cases h with
  | single hc => exact child_mem_sitesUnder hf (mem_children_of_child? hc)
  | plain hlist ht hq hc hb =>
    have hl := child_mem_sitesUnder hf (mem_children_of_child? hlist)
    have hp := child_mem_sitesUnder hl (List.mem_filter.mp ht).1
    exact child_mem_sitesUnder hp (mem_children_of_child? hc)
  | rest hlist ht hq hp hb =>
    have hl := child_mem_sitesUnder hf (mem_children_of_child? hlist)
    have hs := child_mem_sitesUnder hl (List.mem_filter.mp ht).1
    have hd := child_mem_sitesUnder hs (mem_children_of_child? hp)
    have hc := List.mem_of_mem_head? (Parameter.firstNamed_dots hb)
    exact child_mem_sitesUnder hd (List.mem_filter.mp hc).1

theorem mem_sites {root : ParseTree} (h : NameOf source f q r) (hf : f ∈ root.sites) :
    r ∈ root.sites :=
  h.mem_sitesUnder hf

theorem mem_nodes (h : NameOf source f q r) : r.tree ∈ f.tree.nodes := by
  have hf : f ∈ sitesUnder f.above f.tree := ParseTree.mem_sitesUnder.mpr (.inl rfl)
  exact mem_nodes_of_mem_sitesUnder (h.mem_sitesUnder hf)

theorem kind_eq (h : NameOf source f q r) (hp : NamesPlainly f.tree)
    (hf : isFunction f.tree = true) : r.tree.kind = "identifier" := by
  cases h with
  | single hc => exact hp.single hf _ hc
  | plain hlist ht hq hc hb => exact (Parameter.binding?_eq_some hb).1
  | rest hlist ht hq hp hb => exact (Parameter.binding?_eq_some hb).1

/-- What stands right above the name: the function, or a node that only parameters have. -/
theorem head_above (h : NameOf source f q r) :
    ∃ t above, r.above = t :: above ∧
      (t = f.tree ∧ r.tree.label.field = some "parameter" ∨
        t.kind ∈ Parameter.nodeKinds ∨ t.kind = "rest_pattern") := by
  cases h with
  | single hc => exact ⟨_, _, rfl, .inl ⟨rfl, field_of_child? hc⟩⟩
  | plain hlist ht hq hc hb =>
    exact ⟨_, _, rfl, .inr (.inl (Parameter.ofNode?_eq_some hq).1)⟩
  | rest hlist ht hq hp hb =>
    exact ⟨_, _, rfl, .inr (.inr (Parameter.kind_dots hb))⟩

/-- The place of a name tells whose it is. -/
theorem unique (h : NameOf source f q r) (h' : NameOf source g q' r)
    (hf : isFunction f.tree = true) (hg : isFunction g.tree = true) : f = g ∧ q = q' := by
  obtain ⟨ft, fa⟩ := f
  obtain ⟨gt, ga⟩ := g
  -- what is right above the name tells the three kinds of places apart
  cases h with
  | single hc =>
    cases h' with
    | single => exact ⟨rfl, rfl⟩
    | plain _ _ hq => exact absurd hf (Parameter.not_isFunction_node hq)
    | rest _ _ _ _ hb => exact absurd hf (Parameter.not_isFunction_dots hb)
  | plain _ _ hq =>
    cases h' with
    | single => exact absurd hg (Parameter.not_isFunction_node hq)
    | plain _ _ hq' => exact ⟨rfl, Option.some.inj (hq.symm.trans hq')⟩
    | rest _ _ _ _ hb => exact absurd (Parameter.kind_dots hb) (Parameter.kind_node_ne hq)
  | rest _ _ hq _ hb =>
    cases h' with
    | single => exact absurd hg (Parameter.not_isFunction_dots hb)
    | plain _ _ hq' => exact absurd (Parameter.kind_dots hb) (Parameter.kind_node_ne hq')
    | rest _ _ hq' => exact ⟨rfl, Option.some.inj (hq.symm.trans hq')⟩

end NameOf

/-- All parameters in the text that have a name. -/
def Program.parameters (p : Program) : List Parameter :=
  ((p.root.sites.filter fun s => isFunction s.tree).flatMap fun s =>
    Parameter.ofFunction p.source s.tree).filter fun q => !q.name.isEmpty

section
variable {p : Program} (hn : p.root.Nests) (hp : ∀ n ∈ p.root.nodes, NamesPlainly n)
include hn hp

/-- Parameters that are named at one place are one parameter of one function. -/
theorem eq_of_start_eq_of_parameter (hf : f ∈ p.root.sites) (hg : g ∈ p.root.sites)
    (hff : isFunction f.tree = true) (hgf : isFunction g.tree = true)
    (hq : q ∈ Parameter.ofFunction p.source f.tree)
    (hq' : q' ∈ Parameter.ofFunction p.source g.tree)
    (hname : q.name ≠ []) (hname' : q'.name ≠ []) (heq : q.start = q'.start) :
    f = g ∧ q = q' := by
  obtain ⟨r, hr⟩ := exists_nameOf hq
  obtain ⟨r', hr'⟩ := exists_nameOf hq'
  have href := isReference_of_identifier
    (hr.kind_eq (hp _ (mem_nodes_of_mem_sitesUnder hf)) hff)
  have href' := isReference_of_identifier
    (hr'.kind_eq (hp _ (mem_nodes_of_mem_sitesUnder hg)) hgf)
  have hplace : r.tree.start = r'.tree.start := by rw [← hr.name_eq.2, ← hr'.name_eq.2, heq]
  obtain rfl := eq_of_start_eq_of_reference hn hp (hr.mem_sites hf) (hr'.mem_sites hg) href href'
    (hr.name_eq.1 ▸ hname) (hr'.name_eq.1 ▸ hname') hplace
  exact hr.unique hr' hff hgf

/-- No two parameters are named at one place. -/
theorem nodup_start_parameters : (p.parameters.map Parameter.start).Nodup := by
  rw [List.nodup_iff_pairwise_ne, List.pairwise_map, Program.parameters, List.pairwise_filter,
    List.pairwise_flatMap]
  constructor
  · intro s hs
    have hnests := hn.of_mem_nodes (mem_nodes_of_mem_sitesUnder (List.mem_filter.mp hs).1)
    refine (Parameter.pairwise_start hnests).imp fun hlt hx hy => ?_
    exact Nat.ne_of_lt (hlt (by simpa using hx) (by simpa using hy))
  · refine (hn.pairwise_ne.filter _).imp_of_mem fun {f g} hf hg hfg x hx y hy hxn hyn heq => ?_
    obtain ⟨hf, hff⟩ := List.mem_filter.mp hf
    obtain ⟨hg, hgf⟩ := List.mem_filter.mp hg
    have hname : x.name ≠ [] := by simpa using hxn
    have hsame :=
      eq_of_start_eq_of_parameter hn hp hf hg hff hgf hx hy hname (by simpa using hyn) heq
    obtain ⟨r, hr⟩ := exists_nameOf hx
    have hwide : r.tree.start < r.tree.stop := lt_of_byteSlice_ne_nil (hr.name_eq.1 ▸ hname)
    have hspan := (hn.of_mem_nodes (mem_nodes_of_mem_sitesUnder hf)).span_of_mem_nodes hr.mem_nodes
    exact hfg (by omega) hsame.1

end

end SnippetLint.TypeScript
