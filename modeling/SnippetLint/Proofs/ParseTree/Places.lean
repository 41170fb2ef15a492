import SnippetLint.Proofs.ParseTree.Nodes

/-! What is listed below the children of a node, with its places, and the list of all nodes with
theirs: each place of the tree is in it once, and they come in the order of the text. -/
namespace SnippetLint.ParseTree

variable {t u c : ParseTree} {cs : List ParseTree} {place : List ℕ} {i : ℕ}
  {f : ParseTree → List (List ℕ × ParseTree)}

theorem at?_cons (t : ParseTree) (i : ℕ) (place : List ℕ) :
    t.at? (i :: place) = t.children[i]?.bind fun c => c.at? place := rfl

theorem at?_of_child (hc : t.children[i]? = some c) (place : List ℕ) :
    t.at? (i :: place) = c.at? place := by
  rw [at?_cons, hc]
  rfl

/-- What is listed of each of the trees, which are children of one node. The first has the number
`i`. -/
def placed (f : ParseTree → List (List ℕ × ParseTree)) (i : ℕ) :
    List ParseTree → List (List ℕ × ParseTree)
  | [] => []
  | t :: ts => (f t).map (fun p => (i :: p.1, p.2)) ++ placed f (i + 1) ts

theorem mem_placed :
    (place, u) ∈ placed f i cs ↔
      ∃ j q c, place = (i + j) :: q ∧ cs[j]? = some c ∧ (q, u) ∈ f c := by
  induction cs generalizing i with
  | nil => simp [placed]
  | cons c cs ih =>
    rw [placed, List.mem_append, List.mem_map]
    constructor
    · rintro (⟨⟨q, v⟩, hq, hp⟩ | h)
      · obtain ⟨rfl, rfl⟩ := Prod.mk.inj hp
        exact ⟨0, q, c, rfl, rfl, hq⟩
      · obtain ⟨j, q, d, rfl, hd, hq⟩ := ih.mp h
        exact ⟨j + 1, q, d, by rw [Nat.add_right_comm, Nat.add_assoc], hd, hq⟩
    · rintro ⟨_ | j, q, d, rfl, hd, hq⟩
      · obtain rfl : c = d := Option.some.inj hd
        exact Or.inl ⟨(q, u), hq, rfl⟩
      · exact Or.inr (ih.mpr ⟨j, q, d, by rw [Nat.add_right_comm, Nat.add_assoc], hd, hq⟩)

/-- What holds in order below each of the children, and from one child to a later one, holds in
order below the node. -/
theorem pairwise_placed {R : List ℕ × ParseTree → List ℕ × ParseTree → Prop}
    (hdown : ∀ i a b, R a b → R (i :: a.1, a.2) (i :: b.1, b.2))
    (hin : ∀ c ∈ cs, (f c).Pairwise R)
    (hacross : cs.Pairwise fun c d => ∀ i j a b, i < j → a ∈ f c → b ∈ f d →
      R (i :: a.1, a.2) (j :: b.1, b.2)) (i : ℕ) :
    (placed f i cs).Pairwise R := by
  induction cs generalizing i with
  | nil => exact .nil
  | cons c cs ih =>
    obtain ⟨hc, hcs⟩ := List.pairwise_cons.mp hacross
    rw [placed, List.pairwise_append, List.pairwise_map]
    refine ⟨(hin c List.mem_cons_self).imp fun h => hdown i _ _ h,
      ih (fun d hd => hin d (List.mem_cons_of_mem c hd)) hcs (i + 1), ?_⟩
    rintro a ha ⟨b, v⟩ hb
    obtain ⟨p, hp, rfl⟩ := List.mem_map.mp ha
    obtain ⟨j, q, d, rfl, hd, hq⟩ := mem_placed.mp hb
    exact hc d (List.mem_of_getElem? hd) i (i + 1 + j) p (q, v) (by omega) hp hq

mutual

/-- The node and all below it with their places. -/
def places : ParseTree → List (List ℕ × ParseTree)
  | t@(node _ cs) => ([], t) :: placesOfAll 0 cs

/-- The trees are children of one node, of which the first has the number `i`. -/
def placesOfAll (i : ℕ) : List ParseTree → List (List ℕ × ParseTree)
  | [] => []
  | t :: ts => t.places.map (fun p => (i :: p.1, p.2)) ++ placesOfAll (i + 1) ts

end

theorem placesOfAll_eq (i : ℕ) (cs : List ParseTree) : placesOfAll i cs = placed places i cs := by
  induction cs generalizing i with
  | nil => rfl
  | cons c cs ih => rw [placesOfAll, placed, ih]

theorem places_eq (t : ParseTree) : t.places = ([], t) :: placed places 0 t.children := by
  cases t
  rw [places, placesOfAll_eq]
  rfl

theorem mem_places : (place, u) ∈ t.places ↔ t.at? place = some u := by
  induction t using induction_on_children generalizing place with
  | h l cs ih =>
    rw [places_eq, List.mem_cons, mem_placed]
    cases place with
    | nil => simp [at?, eq_comm]
    | cons i place =>
      rw [at?_cons, Option.bind_eq_some_iff]
      constructor
      · rintro (h | ⟨j, q, c, hplace, hc, hq⟩)
        · exact absurd (Prod.mk.inj h).1 (List.cons_ne_nil i place)
        · obtain ⟨hj, rfl⟩ := List.cons.inj hplace
          rw [Nat.zero_add] at hj
          exact ⟨c, hj ▸ hc, (ih c (List.mem_of_getElem? hc)).mp hq⟩
      · rintro ⟨c, hc, hq⟩
        exact .inr ⟨i, place, c, by rw [Nat.zero_add], hc,
          (ih c (List.mem_of_getElem? hc)).mpr hq⟩

theorem pairwise_places (t : ParseTree) :
    t.places.Pairwise fun a b => List.Lex (· < ·) a.1 b.1 := by
  induction t using induction_on_children with
  | h l cs ih =>
    rw [places_eq, List.pairwise_cons]
    constructor
    · rintro ⟨place, u⟩ hmem
      obtain ⟨j, q, c, rfl, -⟩ := mem_placed.mp hmem
      exact .nil
    · apply pairwise_placed
      · exact fun i a b h => .cons h
      · exact ih
      · exact List.pairwise_of_forall fun c d i j a b hij _ _ => .rel hij

theorem map_snd_placed (h : ∀ c ∈ cs, (f c).map Prod.snd = c.nodes) (i : ℕ) :
    (placed f i cs).map Prod.snd = cs.flatMap nodes := by
  induction cs generalizing i with
  | nil => rfl
  | cons c cs ih =>
    obtain ⟨hc, hcs⟩ := List.forall_mem_cons.mp h
    rw [placed, List.map_append, List.map_map, ih hcs, List.flatMap_cons, ← hc]
    rfl

theorem map_snd_places (t : ParseTree) : t.places.map Prod.snd = t.nodes := by
  induction t using induction_on_children with
  | h l cs ih =>
    rw [places_eq, nodes_eq, List.map_cons]
    exact congrArg (node l cs :: ·) (map_snd_placed ih 0)

end SnippetLint.ParseTree
