import SnippetLint.Proofs.TypeScript.UntypedParameters

/-! Names that are reported as never read. A report is about the name of a function, a parameter or
a variable, and in a tree whose spans nest its place tells about which. Of a parameter only the body
of its function is looked at, and a variable is taken to be read where another has its name. -/
namespace SnippetLint.TypeScript
open ParseTree

variable {p : Program} {o : Options} {refs : List Reference} {name : List Char} {start : ℕ}
  {body : ParseTree} {q : Parameter} {f : Finding} {r s : Site}

/-- The name is reported at the place. -/
def ReportsUnread (p : Program) (o : Options) (name : List Char) (start : ℕ) : Prop :=
  ∃ f ∈ check p o, f.code = 6133 ∧ f.start = start ∧ f.message = neverRead name

instance (p : Program) (o : Options) (name : List Char) (start : ℕ) :
    Decidable (ReportsUnread p o name start) :=
  inferInstanceAs (Decidable (∃ f ∈ check p o, _))

theorem neverRead_injective : Function.Injective neverRead :=
  quoted_injective "'" "' is declared but its value is never read."

theorem mem_unusedLocal_iff :
    f ∈ unusedLocal refs o name start ↔ name ≠ [] ∧ name.head? ≠ some '_' ∧
      (∀ x ∈ refs, x.name = name → x.start = start) ∧
      f = .graded o.noUnusedLocals 6133 start (neverRead name) := by
  unfold unusedLocal
  split_ifs with h
  · simp only [Bool.or_eq_true, List.isEmpty_iff, beq_iff_eq, List.any_eq_true, Bool.and_eq_true,
      bne_iff_ne] at h
    refine iff_of_false List.not_mem_nil ?_
    rintro ⟨hne, hunder, hrefs, -⟩
    rcases h with (h | h) | ⟨x, hx, hname, hstart⟩
    · exact hne h
    · exact hunder h
    · exact hstart (hrefs x hx hname)
  · simp only [Bool.or_eq_true, List.isEmpty_iff, beq_iff_eq, List.any_eq_true, Bool.and_eq_true,
      bne_iff_ne, not_or, not_exists, not_and, not_not] at h
    obtain ⟨⟨hne, hunder⟩, hrefs⟩ := h
    rw [List.mem_singleton]
    exact ⟨fun hf => ⟨hne, hunder, hrefs, hf⟩, fun hf => hf.2.2.2⟩

theorem mem_unusedParameter_iff :
    f ∈ unusedParameter refs o body q ↔ q.property = false ∧ q.name.head? ≠ some '_' ∧
      referencesWithin refs q.name body = 0 ∧
      f = .graded o.noUnusedParameters 6133 q.start (neverRead q.name) := by
  unfold unusedParameter
  split_ifs with h
  · simp only [Bool.or_eq_true, beq_iff_eq, bne_iff_ne] at h
    refine iff_of_false List.not_mem_nil ?_
    rintro ⟨hproperty, hunder, hrefs, -⟩
    rcases h with (h | h) | h
    · rw [hproperty] at h
      exact absurd h (by decide)
    · exact hunder h
    · exact h hrefs
  · simp only [Bool.or_eq_true, beq_iff_eq, bne_iff_ne, not_or, not_not, Bool.not_eq_true] at h
    obtain ⟨⟨hproperty, hunder⟩, hrefs⟩ := h
    rw [List.mem_singleton]
    exact ⟨fun hf => ⟨hproperty, hunder, hrefs, hf⟩, fun hf => hf.2.2.2⟩

/-- The finding says of the name at the site that it is never read. -/
inductive Unread (p : Program) (o : Options) (f : Finding) : Site → Prop
  | function {s : Site} {c : ParseTree} (hs : s ∈ p.root.sites) (hs' : isChecked s = true)
      (hk : s.tree.kind = "function_declaration" ∨ s.tree.kind = "generator_function_declaration")
      (hlocal : isLocal p s = true) (hc : s.tree.child? "name" = some c)
      (hf : f ∈ unusedLocal p.references o (c.text p.source) c.start) :
      Unread p o f ⟨c, s.tree :: s.above⟩
  | parameter {s r : Site} {q : Parameter} {body : ParseTree} (hs : s ∈ p.root.sites)
      (hc : isChecked s = true)
      (hq : q ∈ Parameter.ofFunction p.source s.tree) (hr : NameOf p.source s q r)
      (hb : s.tree.child? "body" = some body)
      (hf : f ∈ unusedParameter p.references o body q) : Unread p o f r
  | declarator {s : Site} {d : ParseTree} {above : List ParseTree} (hs : s ∈ p.root.sites)
      (hd : isDeclaredName s = true) (habove : s.above = d :: above)
      (hlocal : isLocal p ⟨d, above⟩ = true)
      (hf : f ∈ unusedLocal p.references o (s.tree.text p.source) s.tree.start) : Unread p o f s

/-- All that is said of a function. -/
theorem mem_checkFunction_iff :
    f ∈ checkFunction p refs o s ↔
      (contextuallyTyped s = false ∧
        ∃ q ∈ Parameter.ofFunction p.source s.tree, q.typed = false ∧ f = implicitAny o q) ∨
      ((s.tree.kind = "function_declaration" ∨ s.tree.kind = "generator_function_declaration") ∧
        isLocal p s = true ∧ ∃ c, s.tree.child? "name" = some c ∧
          f ∈ unusedLocal refs o (c.text p.source) c.start) ∨
      ∃ body, s.tree.child? "body" = some body ∧
        ((∃ q ∈ Parameter.ofFunction p.source s.tree, f ∈ unusedParameter refs o body q) ∨
          body.kind = "statement_block" ∧ isGenerator s.tree = false ∧
            f ∈ missingReturns p.source o s.tree body) := by
  unfold checkFunction
  dsimp only
  rw [List.append_assoc, List.mem_append, List.mem_append]
  refine or_congr ?_ (or_congr ?_ ?_)
  · cases contextuallyTyped s with
    | true => simp
    | false =>
      simp only [Bool.false_eq_true, if_false, true_and, List.mem_map, List.mem_filter,
        Bool.not_eq_true', and_assoc]
      exact exists_congr fun q => and_congr_right fun _ => and_congr_right fun _ => eq_comm
  · cases s.tree.child? "name" with
    | none => simp
    | some c => simp [and_assoc]
  · cases s.tree.child? "body" with
    | none => simp
    | some body => simp [and_assoc]

theorem mem_checkDeclarator_iff :
    f ∈ checkDeclarator p refs o s ↔ ∃ d above, s.above = d :: above ∧
      (isLocal p ⟨d, above⟩ = true ∧ f ∈ unusedLocal refs o (s.tree.text p.source) s.tree.start ∨
        f ∈ mismatch p o d s.tree.start) := by
  unfold checkDeclarator
  split
  · simp_all
  · rename_i d above habove
    simp [habove]

theorem code_ne_of_graded_eq_nil {fs : List Finding} (h : graded fs = []) (hf : f ∈ fs) :
    f.code ≠ 6133 := by
  intro hcode
  refine List.filter_eq_nil_iff.mp h f hf ?_
  rw [hcode]
  decide

theorem code_implicitAny_ne (o : Options) (q : Parameter) : (implicitAny o q).code ≠ 6133 := by
  rw [code_implicitAny]
  split_ifs <;> decide

theorem mem_check_iff :
    f ∈ check p o ↔
      (∃ s ∈ p.root.sites, isChecked s = true ∧ f ∈ checkFunction p p.references o s) ∨
      ∃ s ∈ p.root.sites, isDeclaredName s = true ∧ f ∈ checkDeclarator p p.references o s := by
  simp [check, and_assoc]

namespace Unread

theorem code_eq (h : Unread p o f r) : f.code = 6133 := by
  cases h with
  | function _ _ _ _ _ hf => rw [(mem_unusedLocal_iff.mp hf).2.2.2]; rfl
  | parameter _ _ _ _ _ hf => rw [(mem_unusedParameter_iff.mp hf).2.2.2]; rfl
  | declarator _ _ _ _ hf => rw [(mem_unusedLocal_iff.mp hf).2.2.2]; rfl

theorem mem_sites (h : Unread p o f r) : r ∈ p.root.sites := by
  cases h with
  | function hs _ _ _ hc => exact child_mem_sites hs (mem_children_of_child? hc)
  | parameter hs _ _ hr => exact hr.mem_sites hs
  | declarator hs => exact hs

theorem place_eq (h : Unread p o f r) :
    f.start = r.tree.start ∧ f.message = neverRead (r.tree.text p.source) := by
  cases h with
  | function _ _ _ _ _ hf => rw [(mem_unusedLocal_iff.mp hf).2.2.2]; exact ⟨rfl, rfl⟩
  | parameter _ _ _ hr _ hf =>
    obtain ⟨hname, hstart⟩ := hr.name_eq
    rw [(mem_unusedParameter_iff.mp hf).2.2.2, ← hname, ← hstart]
    exact ⟨rfl, rfl⟩
  | declarator _ _ _ _ hf => rw [(mem_unusedLocal_iff.mp hf).2.2.2]; exact ⟨rfl, rfl⟩

theorem isReference (h : Unread p o f r) (hp : ∀ n ∈ p.root.nodes, NamesPlainly n) :
    isReference r.tree = true := by
  apply isReference_of_identifier
  cases h with
  | function hs _ hk _ hc => exact (hp _ (mem_nodes_of_mem_sitesUnder hs)).declared hk _ hc
  | parameter hs hc _ hr =>
    exact hr.kind_eq (hp _ (mem_nodes_of_mem_sitesUnder hs)) (isFunction_of_isChecked hc)
  | declarator _ hd =>
    simp only [isDeclaredName, Bool.and_eq_true, beq_iff_eq] at hd
    exact hd.1.1

end Unread

/-- What is said of unread names is said of the name at one site. -/
theorem exists_unread_iff : f ∈ check p o ∧ f.code = 6133 ↔ ∃ r, Unread p o f r := by
  rw [mem_check_iff]
  constructor
  · rintro ⟨⟨s, hs, hc, h⟩ | ⟨s, hs, hd, h⟩, hcode⟩
    · rcases mem_checkFunction_iff.mp h with
        ⟨-, q, -, -, rfl⟩ | ⟨hk, hlocal, c, hname, hf⟩ | ⟨body, hb, ⟨q, hq, hf⟩ | ⟨-, -, hf⟩⟩
      · exact absurd hcode (code_implicitAny_ne o q)
      · exact ⟨_, .function hs hc hk hlocal hname hf⟩
      · obtain ⟨r, hr⟩ := exists_nameOf hq
        exact ⟨r, .parameter hs hc hq hr hb hf⟩
      · exact absurd hcode (code_ne_of_graded_eq_nil (graded_missingReturns ..) hf)
    · obtain ⟨d, above, habove, ⟨hlocal, hf⟩ | hf⟩ := mem_checkDeclarator_iff.mp h
      · exact ⟨s, .declarator hs hd habove hlocal hf⟩
      · exact absurd hcode (code_ne_of_graded_eq_nil (graded_mismatch ..) hf)
  · rintro ⟨r, h⟩
    refine ⟨?_, h.code_eq⟩
    cases h with
    | function hs hc hk hlocal hname hf =>
      exact .inl ⟨_, hs, hc, mem_checkFunction_iff.mpr (.inr (.inl ⟨hk, hlocal, _, hname, hf⟩))⟩
    | parameter hs hc hq hr hb hf =>
      exact .inl ⟨_, hs, hc,
        mem_checkFunction_iff.mpr (.inr (.inr ⟨_, hb, .inl ⟨_, hq, hf⟩⟩))⟩
    | declarator hs hd habove hlocal hf =>
      exact .inr ⟨_, hs, hd, mem_checkDeclarator_iff.mpr ⟨_, _, habove, .inl ⟨hlocal, hf⟩⟩⟩

/-- Where a report and a name meet, the report is about the name. -/
theorem reportsUnread_iff (hn : p.root.Nests) (hp : ∀ n ∈ p.root.nodes, NamesPlainly n)
    (hr : r ∈ p.root.sites) (href : isReference r.tree = true)
    (hname : r.tree.text p.source ≠ []) :
    ReportsUnread p o (r.tree.text p.source) r.tree.start ↔ ∃ f, Unread p o f r := by
  constructor
  · rintro ⟨f, hf, hcode, hstart, hmessage⟩
    obtain ⟨s, hs⟩ := exists_unread_iff.mp ⟨hf, hcode⟩
    obtain ⟨hfstart, hfmessage⟩ := hs.place_eq
    have htext : s.tree.text p.source = r.tree.text p.source :=
      neverRead_injective (hfmessage.symm.trans hmessage)
    obtain rfl : s = r := eq_of_start_eq_of_reference hn hp hs.mem_sites hr (hs.isReference hp)
      href (htext ▸ hname) hname (hfstart.symm.trans hstart)
    exact ⟨f, hs⟩
  · rintro ⟨f, h⟩
    obtain ⟨hstart, hmessage⟩ := h.place_eq
    exact ⟨f, (exists_unread_iff.mpr ⟨r, h⟩).1, h.code_eq, hstart, hmessage⟩

namespace NameOf

/-- A name of a parameter is not right below what declares a variable. -/
theorem isDeclaredName_eq (h : NameOf p.source s q r) (hf : isFunction s.tree = true) :
    isDeclaredName r = false := by
  have hkinds : "variable_declarator" ∉ functionKinds ∧
      "variable_declarator" ∉ Parameter.nodeKinds := by decide
  obtain ⟨t, above, habove, ht⟩ := h.head_above
  have hk : t.kind ≠ "variable_declarator" := by
    intro hk
    rw [hk] at ht
    rcases ht with ⟨rfl, -⟩ | ht | ht
    · rw [isFunction, hk] at hf
      exact hkinds.1 (List.contains_iff_mem.mp hf)
    · exact hkinds.2 ht
    · exact absurd ht (by decide)
  simp [isDeclaredName, habove, hk]

/-- The name of a function has another role. -/
theorem ne_functionName (h : NameOf p.source s q r) {g : Site} {c : ParseTree}
    (hk : g.tree.kind = "function_declaration" ∨ g.tree.kind = "generator_function_declaration")
    (hc : g.tree.child? "name" = some c) : r ≠ ⟨c, g.tree :: g.above⟩ := by
  rintro rfl
  have hfield := field_of_child? hc
  obtain ⟨t, above, habove, ht⟩ := h.head_above
  obtain ⟨rfl, -⟩ := List.cons.inj habove
  rcases ht with ⟨-, ht⟩ | ht | ht
  · exact absurd (hfield.symm.trans ht) (by decide)
  · rcases hk with hk | hk <;> exact absurd (hk ▸ ht) (by decide)
  · rcases hk with hk | hk <;> exact absurd (hk.symm.trans ht) (by decide)

end NameOf

/-- Uses of a name anywhere in the text, declarations among them. -/
def uses (p : Program) (name : List Char) : List ParseTree :=
  p.root.nodes.filter fun n => isReference n && n.text p.source == name

/-- Where variables of the name are declared. -/
def declarations (p : Program) (name : List Char) : List Site :=
  p.root.sites.filter fun r => isDeclaredName r && r.tree.text p.source == name

theorem length_declarations (h : ∀ r ∈ p.root.sites, isReference r.tree = true →
    r.tree.text p.source = name → isDeclaredName r = true) :
    (declarations p name).length = (uses p name).length := by
  have hsame : ∀ r ∈ p.root.sites, (isDeclaredName r && r.tree.text p.source == name) =
      (isReference r.tree && r.tree.text p.source == name) := by
    intro r hr
    rw [Bool.eq_iff_iff, Bool.and_eq_true, Bool.and_eq_true, beq_iff_eq]
    refine and_congr_left fun ht => ⟨fun hd => ?_, fun href => h r hr href ht⟩
    simp only [isDeclaredName, Bool.and_eq_true, beq_iff_eq] at hd
    exact isReference_of_identifier hd.1.1
  rw [declarations, uses, nodes, List.filter_map, List.length_map, List.filter_congr hsame]
  rfl

/-- Of things with ascending keys there is one exactly if all have the key of one. -/
theorem length_eq_one_iff_of_pairwise {α : Type} {key : α → ℕ} {xs : List α} {a : α}
    (h : xs.Pairwise fun b c => key b < key c) (ha : a ∈ xs) :
    xs.length = 1 ↔ ∀ b ∈ xs, key b = key a := by
  cases xs with
  | nil => exact absurd ha List.not_mem_nil
  | cons b xs =>
    cases xs with
    | nil =>
      obtain rfl := List.mem_singleton.mp ha
      simp
    | cons c xs =>
      have hlt := (List.pairwise_cons.mp h).1 c List.mem_cons_self
      refine iff_of_false (by simp) fun hall => ?_
      have hb := hall b List.mem_cons_self
      have hc := hall c (List.mem_cons_of_mem b List.mem_cons_self)
      omega

section
variable (hn : p.root.Nests) (hp : ∀ n ∈ p.root.nodes, NamesPlainly n) (hs : s ∈ p.root.sites)
include hn hp hs

/-- A parameter is reported exactly if the body of its function does not have its name, wherever
else in the function the name may stand. -/
theorem parameter_reported_iff_not_in_body (hf : isFunction s.tree = true)
    (hq : q ∈ Parameter.ofFunction p.source s.tree) (hname : q.name ≠ []) (o : Options) :
    ReportsUnread p o q.name q.start ↔
      isChecked s = true ∧ q.property = false ∧ q.name.head? ≠ some '_' ∧
        ∃ body, s.tree.child? "body" = some body ∧
          ∀ n ∈ body.nodes, isReference n = true → n.text p.source ≠ q.name := by
  obtain ⟨r, hr⟩ := exists_nameOf hq
  obtain ⟨htext, hstart⟩ := hr.name_eq
  have href := isReference_of_identifier
    (hr.kind_eq (hp _ (mem_nodes_of_mem_sitesUnder hs)) hf)
  have hreports := reportsUnread_iff (o := o) hn hp (hr.mem_sites hs) href (htext ▸ hname)
  rw [← htext, ← hstart] at hreports
  have hbody : ∀ body, s.tree.child? "body" = some body →
      (referencesWithin p.references q.name body = 0 ↔
        ∀ n ∈ body.nodes, isReference n = true → n.text p.source ≠ q.name) := by
    intro body hb
    refine referencesWithin_eq_zero_iff hn hp ?_ ?_ hname
    · exact mem_nodes_of_mem_sitesUnder (child_mem_sites hs (mem_children_of_child? hb))
    · rw [field_of_child? hb]
      exact Option.some_ne_none _
  rw [hreports]
  constructor
  · rintro ⟨f, h⟩
    cases h with
    | function _ _ hk _ hc => exact absurd rfl (hr.ne_functionName hk hc)
    | parameter _ hc _ hr' hb hf' =>
      obtain ⟨rfl, rfl⟩ := hr.unique hr' hf (isFunction_of_isChecked hc)
      obtain ⟨hproperty, hunder, hrefs, -⟩ := mem_unusedParameter_iff.mp hf'
      exact ⟨hc, hproperty, hunder, _, hb, (hbody _ hb).mp hrefs⟩
    | declarator _ hd => exact absurd ((hr.isDeclaredName_eq hf).symm.trans hd) (by decide)
  · rintro ⟨hc, hproperty, hunder, body, hb, hrefs⟩
    exact ⟨_, .parameter hs hc hq hr hb
      (mem_unusedParameter_iff.mpr ⟨hproperty, hunder, (hbody body hb).mpr hrefs, rfl⟩)⟩

end

namespace Sample

def numberType (start : ℕ) : ParseTree :=
  named "type_annotation" start (start + 8) (some "type")
    [token ":" start, named "predefined_type" (start + 2) (start + 8) none
      [token "number" (start + 2)]]

def defaulted : ParseTree :=
  named "function_declaration" 0 50 none [
    token "function" 0,
    named "identifier" 9 10 (some "name") [],
    named "formal_parameters" 10 28 (some "parameters") [
      token "(" 10,
      named "required_parameter" 11 20 none
        [named "identifier" 11 12 (some "pattern") [], numberType 12],
      token "," 20,
      named "required_parameter" 22 27 none [
        named "identifier" 22 23 (some "pattern") [],
        token "=" 24,
        named "identifier" 26 27 (some "value") []],
      token ")" 27],
    named "type_annotation" 28 36 (some "return_type")
      [token ":" 28, named "predefined_type" 30 36 none [token "number" 30]],
    named "statement_block" 37 50 (some "body") [
      token "\x7b" 37,
      named "return_statement" 39 48 none
        [token "return" 39, named "identifier" 46 47 none [], token ";" 47],
      token "\x7d" 49]]

/-- A parameter that is read in what the next one is by default. -/
def readByDefault : Program where
  source := "function f(a: number, b = a): number \x7b return b; \x7d".toList
  root := named "program" 0 50 none [defaulted]

theorem nests_readByDefault : readByDefault.root.Nests ∧
    ∀ n ∈ readByDefault.root.nodes, NamesPlainly n := by
  decide +kernel

def defaultedSite : Site := ⟨defaulted, [readByDefault.root]⟩

theorem mem_parameters_defaulted : defaultedSite ∈ readByDefault.root.sites ∧
    ⟨['a'], 11, true, false, false⟩ ∈ Parameter.ofFunction readByDefault.source defaulted := by
  constructor
  · exact .tail _ (.head _)
  · decide +kernel

/-- The parameter is reported, as the body has other names only. -/
theorem reportsUnread_readByDefault : readByDefault.root.Nests ∧
    (∀ n ∈ readByDefault.root.nodes, NamesPlainly n) ∧
    ReportsUnread readByDefault .allStrict ['a'] 11 := by
  obtain ⟨hn, hp⟩ := nests_readByDefault
  obtain ⟨hs, hq⟩ := mem_parameters_defaulted
  have hreported := parameter_reported_iff_not_in_body hn hp hs (by decide) hq (by decide)
    .allStrict
  exact ⟨hn, hp, hreported.mpr ⟨by decide, rfl, by decide, _, rfl, by decide +kernel⟩⟩

/-- That a parameter is reported says nothing of the names outside the body: the next parameter may
have it as its default value. -/
theorem not_name_elsewhere_of_reported :
    ¬∀ (p : Program) (o : Options) (s : Site) (q : Parameter), p.root.Nests →
      (∀ n ∈ p.root.nodes, NamesPlainly n) → s ∈ p.root.sites → isFunction s.tree = true →
      q ∈ Parameter.ofFunction p.source s.tree → ReportsUnread p o q.name q.start →
      ∀ n ∈ s.tree.nodes, isReference n = true → n.text p.source = q.name →
        n.start = q.start := by
  intro h
  obtain ⟨hn, hp⟩ := nests_readByDefault
  obtain ⟨hs, hq⟩ := mem_parameters_defaulted
  have hreported : ReportsUnread readByDefault .allStrict ['a'] 11 := by decide +kernel
  have hdefault := h readByDefault .allStrict defaultedSite _ hn hp hs (by decide) hq hreported
  revert hdefault
  decide +kernel

end Sample

section
variable (hn : p.root.Nests) (hp : ∀ n ∈ p.root.nodes, NamesPlainly n) (hs : s ∈ p.root.sites)
include hn hp hs

/-- A name is used once exactly if all of its uses start where one of them does. -/
theorem length_uses_eq_one_iff (href : isReference s.tree = true)
    (hname : s.tree.text p.source ≠ []) :
    (uses p (s.tree.text p.source)).length = 1 ↔
      ∀ x ∈ p.references, x.name = s.tree.text p.source → x.start = s.tree.start := by
  have hpairwise : (uses p (s.tree.text p.source)).Pairwise fun m n => m.start < n.start := by
    refine ((hn.pairwise_marked (scattered_name hp hname)).filter _).imp_of_mem fun hm hn h => ?_
    exact h (List.mem_filter.mp hm).2 (List.mem_filter.mp hn).2
  have hmem : s.tree ∈ uses p (s.tree.text p.source) :=
    List.mem_filter.mpr ⟨mem_nodes_of_mem_sitesUnder hs, by simp [href]⟩
  rw [length_eq_one_iff_of_pairwise hpairwise hmem]
  constructor
  · intro h x hx hxname
    obtain ⟨n, hmem, hr, rfl⟩ := mem_references.mp hx
    exact h n (List.mem_filter.mpr ⟨hmem, by simp [hr, ← hxname]⟩)
  · intro h n hmem
    obtain ⟨hmem, hn⟩ := List.mem_filter.mp hmem
    obtain ⟨hr, ht⟩ := Bool.and_eq_true_iff.mp hn
    exact h ⟨n.text p.source, n.start⟩ (mem_references.mpr ⟨n, hmem, hr, rfl⟩) (beq_iff_eq.mp ht)

/-- A variable is reported exactly if it is local and its name, which no `_` begins, is used once,
in its declaration. So where all uses of the name are declarations, it is reported exactly if there
is one of them. -/
theorem variable_reported_iff_named_once (hd : isDeclaredName s = true)
    (hname : s.tree.text p.source ≠ []) {d : ParseTree} {above : List ParseTree}
    (habove : s.above = d :: above) (o : Options) :
    (ReportsUnread p o (s.tree.text p.source) s.tree.start ↔
      isLocal p ⟨d, above⟩ = true ∧ (s.tree.text p.source).head? ≠ some '_' ∧
        (uses p (s.tree.text p.source)).length = 1) ∧
      ((∀ r ∈ p.root.sites, isReference r.tree = true →
          r.tree.text p.source = s.tree.text p.source → isDeclaredName r = true) →
        (uses p (s.tree.text p.source)).length =
          (declarations p (s.tree.text p.source)).length) := by
  refine ⟨?_, fun h => (length_declarations h).symm⟩
  have hkind : s.tree.kind = "identifier" ∧ d.kind = "variable_declarator" := by
    simp only [isDeclaredName, habove, List.head?_cons, Option.any_some, Bool.and_eq_true,
      beq_iff_eq] at hd
    exact ⟨hd.1.1, hd.2⟩
  have href := isReference_of_identifier hkind.1
  rw [reportsUnread_iff hn hp hs href hname, length_uses_eq_one_iff hn hp hs href hname]
  constructor
  · rintro ⟨f, h⟩
    cases h with
    | function _ _ hk =>
      obtain ⟨rfl, -⟩ := List.cons.inj habove
      rcases hk with hk | hk <;> exact absurd (hk.symm.trans hkind.2) (by decide)
    | parameter _ hc _ hr =>
      have hdeclared := hr.isDeclaredName_eq (isFunction_of_isChecked hc)
      exact absurd (hdeclared.symm.trans hd) (by decide)
    | declarator _ _ habove' hlocal hf =>
      obtain ⟨rfl, rfl⟩ := List.cons.inj (habove.symm.trans habove')
      obtain ⟨-, hunder, hrefs, -⟩ := mem_unusedLocal_iff.mp hf
      exact ⟨hlocal, hunder, hrefs⟩
  · rintro ⟨hlocal, hunder, hrefs⟩
    exact ⟨_, .declarator hs hd habove hlocal
      (mem_unusedLocal_iff.mpr ⟨hname, hunder, hrefs, rfl⟩)⟩

end

namespace Sample

def declarator (start : ℕ) : ParseTree :=
  named "variable_declarator" start (start + 5) none [
    named "identifier" start (start + 1) (some "name") [],
    token "=" (start + 2),
    named "number" (start + 4) (start + 5) (some "value") []]

def declaration (start : ℕ) : ParseTree :=
  named "lexical_declaration" start (start + 12) none
    [.node ⟨"const", start, start + 5, false, false, false, false, some "kind"⟩ [],
      declarator (start + 6), token ";" (start + 11)]

def declaringBody (start : ℕ) : ParseTree :=
  named "statement_block" start (start + 16) (some "body")
    [token "\x7b" start, declaration (start + 2), token "\x7d" (start + 15)]

def declaringFunction (start : ℕ) : ParseTree :=
  named "function_declaration" start (start + 35) none [
    token "function" start,
    named "identifier" (start + 9) (start + 10) (some "name") [],
    named "formal_parameters" (start + 10) (start + 12) (some "parameters")
      [token "(" (start + 10), token ")" (start + 11)],
    named "type_annotation" (start + 12) (start + 18) (some "return_type") [
      token ":" (start + 12),
      named "predefined_type" (start + 14) (start + 18) none [token "void" (start + 14)]],
    declaringBody (start + 19)]

/-- One function with a variable that is not read. -/
def declaredOnce : Program where
  source := "function f(): void \x7b const n = 1; \x7d".toList
  root := named "program" 0 35 none [declaringFunction 0]

/-- Two functions with such a variable of one name. -/
def declaredTwice : Program where
  source := ("function f(): void \x7b const n = 1; \x7d " ++
    "function g(): void \x7b const n = 2; \x7d").toList
  root := named "program" 0 71 none [declaringFunction 0, declaringFunction 36]

/-- Where the name of the variable stands. -/
def declaredSite (p : Program) (start : ℕ) : Site where
  tree := named "identifier" (start + 27) (start + 28) (some "name") []
  above := [declarator (start + 27), declaration (start + 21), declaringBody (start + 19),
    declaringFunction start, p.root]

theorem declaredSite_mem_sites {p : Program} {start : ℕ}
    (h : declaringFunction start ∈ p.root.children) :
    declaredSite p start ∈ p.root.sites := by
  have hroot : ⟨p.root, []⟩ ∈ p.root.sites := by
    rw [sites, mem_sitesUnder]
    exact .inl rfl
  have hbody : declaringBody (start + 19) ∈ (declaringFunction start).children := by
    simp [declaringFunction, named, children]
  have hdeclaration : declaration (start + 21) ∈ (declaringBody (start + 19)).children := by
    simp [declaringBody, named, children]
  have hdeclarator : declarator (start + 27) ∈ (declaration (start + 21)).children := by
    simp [declaration, named, children]
  exact child_mem_sites (child_mem_sites (child_mem_sites (child_mem_sites
    (child_mem_sites hroot h) hbody) hdeclaration) hdeclarator) (.head _)

/-- The variable is reported where it is the only one. -/
theorem reportsUnread_declaredOnce : declaredOnce.root.Nests ∧
    (∀ n ∈ declaredOnce.root.nodes, NamesPlainly n) ∧
    ReportsUnread declaredOnce .allStrict ['n'] 27 := by
  have hn : declaredOnce.root.Nests := by decide +kernel
  have hp : ∀ n ∈ declaredOnce.root.nodes, NamesPlainly n := by decide +kernel
  have hs : declaredSite declaredOnce 0 ∈ declaredOnce.root.sites :=
    declaredSite_mem_sites (.head _)
  obtain ⟨hreported, -⟩ := variable_reported_iff_named_once hn hp hs (by decide +kernel)
    (by decide +kernel) rfl .allStrict
  exact ⟨hn, hp, hreported.mpr (by decide +kernel)⟩

/-- A name that is declared and never read is not reported where it is declared twice. -/
theorem not_reportsUnread_of_only_declared :
    ¬∀ (p : Program) (o : Options) (r : Site) (d : ParseTree) (above : List ParseTree),
      p.root.Nests → (∀ n ∈ p.root.nodes, NamesPlainly n) → r ∈ p.root.sites →
      isDeclaredName r = true → r.tree.text p.source ≠ [] → r.above = d :: above →
      (r.tree.text p.source).head? ≠ some '_' →
      (∀ s ∈ p.root.sites, isReference s.tree = true →
        s.tree.text p.source = r.tree.text p.source → isDeclaredName s = true) →
      isLocal p ⟨d, above⟩ = true → ReportsUnread p o (r.tree.text p.source) r.tree.start := by
  intro h
  have hs : declaredSite declaredTwice 0 ∈ declaredTwice.root.sites :=
    declaredSite_mem_sites (.head _)
  have hreported := h declaredTwice .allStrict (declaredSite declaredTwice 0) _ _
    (by decide +kernel) (by decide +kernel) hs (by decide +kernel) (by decide +kernel) rfl
    (by decide +kernel) (by decide +kernel) (by decide +kernel)
  revert hreported
  decide +kernel

end Sample

end SnippetLint.TypeScript
