import SnippetLint.Proofs.TypeScript.JumpFree
import SnippetLint.TypeScript.Check

/-! Where nothing jumps, a statement that control cannot get behind is taken to return, unless that
hangs on the body of a `do` or a `with`. -/
namespace SnippetLint.TypeScript
open ParseTree

variable {source : List Char} {t s : ParseTree}

theorem Runs.sequence_normal {inTry : Bool} {ts : List ParseTree}
    (h : ∀ s ∈ ts, s.named = true ∧ Runs source inTry (.statement [] s) .normal) :
    Runs source inTry (.sequence ts) .normal := by
  induction ts with
  | nil => exact .nil
  | cons t ts ih =>
    obtain ⟨⟨hn, ht⟩, hts⟩ := List.forall_mem_cons.mp h
    exact .next hn ht (ih hts)

/-- The statement can be run to its end. -/
def CanComplete (source : List Char) (t : ParseTree) : Prop :=
  ∀ inTry labels, Runs source inTry (.statement labels t) .normal

/-- Control comes behind the statement only through its body. -/
def RunsBody (t : ParseTree) : Prop :=
  t.kind = "with_statement" ∨ t.kind = "do_statement" ∧ ¬ Endless t

section
variable {levels : ℕ} (hj : JumpFree t)
  (ih : ∀ s ∈ parts t, returnsWithin levels s = false → CanComplete source s)
include ih

theorem canComplete_block (hk : t.kind = "statement_block")
    (h : returnsWithin (levels + 1) t = false) : CanComplete source t := by
  intro inTry labels
  have hs : t.kind ∈ sequenceKinds := by simp [hk, sequenceKinds]
  have hall : ∀ s ∈ t.namedChildren, returnsWithin levels s = false := by
    simpa [returnsWithin, hk] using h
  refine .block hs (.sequence_normal fun s hm => ⟨(List.mem_filter.mp hm).2, ?_⟩)
  exact ih s (by rwa [parts_of_sequence hs]) (hall s hm) inTry []

include hj

theorem canComplete_else (hk : t.kind = "else_clause")
    (h : returnsWithin (levels + 1) t = false) : CanComplete source t := by
  intro inTry labels
  have hseq : t.kind ∈ sequenceKinds := by simp [hk, sequenceKinds]
  obtain ⟨s, hs⟩ := List.length_eq_one_iff.mp (hj.regular.otherwise hk)
  have hm : s ∈ t.namedChildren := by
    rw [hs]
    exact List.mem_singleton_self s
  have hret : returnsWithin levels s = false := by
    simpa [returnsWithin, hk, firstNamed?, hs] using h
  refine .block hseq ?_
  rw [hs]
  refine .next (List.mem_filter.mp hm).2 (ih s ?_ hret inTry []) .nil
  rwa [parts_of_sequence hseq]

theorem canComplete_if (hk : t.kind = "if_statement")
    (h : returnsWithin (levels + 1) t = false) : CanComplete source t := by
  intro inTry labels
  obtain ⟨hcons, halt⟩ := hj.regular.choice hk
  obtain ⟨s, hs⟩ := Option.isSome_iff_exists.mp hcons
  cases ha : t.child? "alternative" with
  | none => exact .noAlternative hk ha
  | some e =>
    rw [ha] at halt
    obtain ⟨r, hr⟩ := Option.isSome_iff_exists.mp (halt rfl)
    have hboth : (returnsWithin levels s && returnsWithin levels r) = false := by
      simpa only [returnsWithin, hk, (role?_eq_some.mp hs).1, (role?_eq_some.mp hr).1,
        Option.any_some] using h
    rcases Bool.and_eq_false_iff.mp hboth with hret | hret
    · exact .consequence hk hs (ih s (mem_parts_if hk (.inl hs)) hret inTry [])
    · exact .alternative hk hr (ih r (mem_parts_if hk (.inr hr)) hret inTry [])

/-- Anything in the body may throw, so that the handler is come to. -/
theorem runs_guarded_normal (hk : t.kind = "try_statement") {inTry : Bool}
    (h : ((t.child? "body").any (returnsWithin levels) &&
      (t.child? "handler").all fun r => (r.child? "body").any (returnsWithin levels)) = false) :
    Runs source inTry (.guarded t) .normal := by
  obtain ⟨hbody, hhandler, -⟩ := hj.regular.guarded hk
  obtain ⟨s, hs⟩ := Option.isSome_iff_exists.mp hbody
  have hsc := (role?_eq_some.mp hs).1
  rw [hsc, Option.any_some] at h
  rcases Bool.and_eq_false_iff.mp h with h | h
  · refine .unguarded hs (ih s (mem_parts_try hk (.inl hs)) h true []) ?_
    exact fun hc => Completion.noConfusion hc
  · cases hc : t.child? "handler" with
    | none =>
      rw [hc] at h
      cases h
    | some c =>
      rw [hc] at hhandler h
      obtain ⟨r, hr⟩ := Option.isSome_iff_exists.mp (hhandler rfl)
      obtain ⟨c', hc', -, -, hrc, -⟩ := clauseBody?_eq_some.mp hr
      obtain rfl : c = c' := Option.some.inj (hc.symm.trans hc')
      rw [Option.all_some, hrc, Option.any_some] at h
      refine .handled hs (.throws ?_) hr (ih r (mem_parts_try hk (.inr (.inl hr))) h inTry [])
      exact (hj.of_child? hsc).kind_ne (by decide)

theorem canComplete_try (hk : t.kind = "try_statement")
    (h : returnsWithin (levels + 1) t = false) : CanComplete source t := by
  intro inTry labels
  have hparts : ((t.child? "finalizer").bind (child? "body")).any (returnsWithin levels) = false ∧
      ((t.child? "body").any (returnsWithin levels) &&
        (t.child? "handler").all fun r => (r.child? "body").any (returnsWithin levels)) =
          false := by
    simpa only [returnsWithin, hk, Bool.or_eq_false_iff] using h
  have hg : Runs source inTry (.guarded t) .normal := runs_guarded_normal hj ih hk hparts.2
  cases hf : t.child? "finalizer" with
  | none => exact .tryStatement hk hf hg
  | some f =>
    have hfinal := (hj.regular.guarded hk).2.2
    rw [hf] at hfinal
    obtain ⟨r, hr⟩ := Option.isSome_iff_exists.mp (hfinal rfl)
    obtain ⟨f', hf', -, -, hrc, -⟩ := clauseBody?_eq_some.mp hr
    have hret := hparts.1
    rw [hf', Option.bind_some, hrc, Option.any_some] at hret
    exact .finalizer hk hg hr (ih r (mem_parts_try hk (.inr (.inr hr))) hret inTry [])

/-- A `switch` that no default clause closes is gone past, and the last clause is one of those that
it may be entered by. -/
theorem canComplete_switch (hk : t.kind = "switch_statement")
    (h : returnsWithin (levels + 1) t = false) : CanComplete source t := by
  intro inTry labels
  obtain ⟨cs, hcs, hck⟩ := hj.regular.clauses hk
  obtain ⟨b, hb, -, -, -, hcsb⟩ := clauses?_eq_some.mp hcs
  by_cases hd : ∀ c ∈ cs, c.kind ≠ "switch_default"
  · exact .noClause hk hcs hd
  · have hne : cs ≠ [] := by
      rintro rfl
      exact hd (List.forall_mem_nil _)
    obtain ⟨before, last, rfl⟩ : ∃ before last, cs = before ++ [last] :=
      ⟨cs.dropLast, cs.getLast hne, (List.dropLast_append_getLast hne).symm⟩
    have hlast : last ∈ b.namedChildren := by
      rw [hcsb]
      exact List.mem_append_right _ (List.mem_singleton_self last)
    have hjl : JumpFree last := (hj.of_child? hb).of_child (List.mem_filter.mp hlast).1
    have hlk : last.kind ∈ clauseKinds :=
      hck last (List.mem_append_right _ (List.mem_singleton_self last))
    have hall : ∀ s ∈ last.childrenIn "body", returnsWithin levels s = false := by
      have hdef : ∃ c ∈ before ++ [last], c.kind = "switch_default" := by
        simpa using hd
      have hany : (before ++ [last]).any (·.kind == "switch_default") = true := by
        simpa using hdef
      simpa [returnsWithin, hk, hb, hcsb, hany, escapes_of_jumpFree hj] using h
    have hkinds : ∀ k ∈ clauseKinds, k ∉ passedOverKinds := by decide
    refine .clause hk hcs (hkinds _ hlk) (.sequence_normal fun s hs => ?_)
      fun hc => Completion.noConfusion hc
    rw [clauseStatements, List.flatMap_singleton] at hs
    have hn : s.named = true := hjl.regular.statements hlk s hs
    have hp : s ∈ parts t := by
      refine mem_parts_clause hk hcs ?_ hn
      rwa [clauseStatements, List.flatMap_singleton]
    exact ⟨hn, ih s hp (hall s hs) inTry []⟩

end

section
variable {levels : ℕ} (hj : JumpFree t)
include hj

theorem not_endless_of_loop (hk : t.kind ∈ loopKinds) (h : returnsWithin (levels + 1) t = false) :
    ¬ Endless t := by
  intro he
  have hend : isEndless t = true := isEndless_of_endless he hj
  simp only [loopKinds, List.mem_cons, List.not_mem_nil, or_false] at hk
  rcases hk with hk | hk | hk | hk
  · simp [returnsWithin, hk, hend, escapes_of_jumpFree hj] at h
  · simp [returnsWithin, hk, hend, escapes_of_jumpFree hj] at h
  · simp [returnsWithin, hk, hend, escapes_of_jumpFree hj] at h
  · have hc := Option.isNone_iff_eq_none.mp (hj.regular.noCondition hk)
    rw [isEndless, hc, hk] at hend
    exact absurd hend (by decide)

theorem exists_body (hk : t.kind ∈ bodyKinds) : ∃ s, role? "body" t = some s :=
  Option.isSome_iff_exists.mp (hj.regular.body hk)

theorem canComplete_do (hk : t.kind = "do_statement") (he : ¬ Endless t)
    (hb : ∀ s, role? "body" t = some s → CanComplete source s) : CanComplete source t := by
  intro inTry labels
  obtain ⟨s, hs⟩ := exists_body hj (by simp [hk, bodyKinds, loopKinds])
  exact .doLoop hk (.again hs (hb s hs inTry []) rfl (.ends he))

theorem canComplete_with (hk : t.kind = "with_statement")
    (hb : ∀ s, role? "body" t = some s → CanComplete source s) : CanComplete source t := by
  intro inTry labels
  obtain ⟨s, hs⟩ := exists_body hj (by simp [hk, bodyKinds])
  exact .withStatement hk hs (hb s hs inTry [])

/-- A statement can complete if those of its parts can that are not taken to return. -/
theorem canComplete_of_parts
    (ih : ∀ s ∈ parts t, returnsWithin levels s = false → CanComplete source s)
    (hb : RunsBody t → ∀ s, role? "body" t = some s → CanComplete source s)
    (h : returnsWithin (levels + 1) t = false) : CanComplete source t := by
  by_cases hk : t.kind ∈ controlKinds
  · simp only [controlKinds, sequenceKinds, bodyKinds, List.cons_append, List.nil_append,
      List.mem_cons] at hk
    rcases hk with hk | hk | hk | hk | hk | hk | hk | hk | hk | hk | hk | hk
    -- in the order of `controlKinds`
    · simp [returnsWithin, hk] at h
    · simp [returnsWithin, hk] at h
    · exact absurd hk (hj.kind_ne (by decide))
    · exact absurd hk (hj.kind_ne (by decide))
    · exact canComplete_if hj ih hk h
    · exact canComplete_try hj ih hk h
    · exact canComplete_switch hj ih hk h
    · exact canComplete_block ih hk h
    · exact canComplete_else hj ih hk h
    · exact absurd hk (hj.kind_ne (by decide))
    · exact canComplete_with hj hk (hb (.inl hk))
    · have he : ¬ Endless t := not_endless_of_loop hj hk h
      by_cases hd : t.kind = "do_statement"
      · exact canComplete_do hj hd he (hb (.inr ⟨hd, he⟩))
      · exact fun _ _ => .loop hk hd (.ends he)
  · exact fun _ _ => .plain hk

end

/-- No body stops control that can come behind a statement only through it. -/
def BodiesComplete (source : List Char) (t : ParseTree) : Prop :=
  ∀ n ∈ t.nodes, RunsBody n → ∀ s, role? "body" n = some s → ¬ NeverCompletes source s

theorem BodiesComplete.of_mem_parts (h : BodiesComplete source t) (hs : s ∈ parts t) :
    BodiesComplete source s :=
  fun n hn => h n (mem_nodes_trans (mem_nodes_of_mem_parts hs) hn)

theorem mem_parts_of_runsBody (hr : RunsBody t) (hs : role? "body" t = some s) : s ∈ parts t := by
  refine mem_parts_body ?_ hs
  rcases hr with hk | ⟨hk, -⟩ <;> simp [hk, bodyKinds, loopKinds]

/-- The checker is right about a body that never completes, so that one it is not said of can. -/
theorem canComplete_of_not_neverCompletes {n : ℕ} (hn : NestedWithin n s) (hj : JumpFree s)
    (hc : returnsWithin (n + 1) s = false → CanComplete source s)
    (h : ¬ NeverCompletes source s) : CanComplete source s := by
  refine hc (Bool.eq_false_iff.mpr fun hret => h ?_)
  exact (secure_of_nestedWithin hn (hj.wellAimed hn) hret).neverCompletes

theorem canComplete_of_returnsWithin {n levels : ℕ} (hn : NestedWithin n t) (hj : JumpFree t)
    (hb : BodiesComplete source t) (h : returnsWithin levels t = false) :
    CanComplete source t := by
  -- By the depth of the statement. With no level left all is taken to return, so there is one.
  induction n generalizing t levels with
  | zero =>
    have hnone : ∀ s, s ∉ parts t := by
      rw [show parts t = [] from hn]
      exact fun _ => List.not_mem_nil
    cases levels with
    | zero => cases h
    | succ levels =>
      exact canComplete_of_parts hj (fun s hs => absurd hs (hnone s))
        (fun hr s hs => absurd (mem_parts_of_runsBody hr hs) (hnone s)) h
  | succ n ih =>
    cases levels with
    | zero => cases h
    | succ levels =>
      refine canComplete_of_parts hj ?_ ?_ h
      · intro s hs hret
        exact ih (hn s hs) (hj.of_mem_parts hs) (hb.of_mem_parts hs) hret
      · intro hr s hs
        have hp : s ∈ parts t := mem_parts_of_runsBody hr hs
        have hjs : JumpFree s := hj.of_mem_parts hp
        refine canComplete_of_not_neverCompletes (hn s hp) hjs ?_ (hb t (mem_nodes_self t) hr s hs)
        exact ih (hn s hp) hjs (hb.of_mem_parts hp)

/-- Whatever control cannot get behind is taken to return, and a function with such a body is told
of no missing `return`. -/
theorem alwaysReturns_of_neverCompletes (hj : JumpFree t) (hb : BodiesComplete source t)
    (h : NeverCompletes source t) :
    alwaysReturns t = true ∧ ∀ o f, missingReturns source o f t = [] := by
  have hret : alwaysReturns t = true := by
    by_contra hret
    have hn : NestedWithin t.size t := nestedWithin_of_size_le (Nat.le_refl _)
    have hc : CanComplete source t :=
      canComplete_of_returnsWithin hn hj hb (Bool.eq_false_iff.mpr hret)
    exact h false [] (hc false [])
  refine ⟨hret, fun o f => ?_⟩
  cases ht : (f.child? "return_type").bind firstNamed? <;> simp [missingReturns, hret, ht]

/-- A `do` whose body stops control never comes to its condition. -/
theorem neverCompletes_do (hj : JumpFree t) (hk : t.kind = "do_statement")
    (hs : role? "body" t = some s) (h : NeverCompletes source s) : NeverCompletes source t := by
  have hcontrol : t.kind ∈ controlKinds := by
    rw [hk]
    decide
  intro inTry labels hr
  cases hr with
  | plain hn => exact hn hcontrol
  | block hn => exact absurd hn (by rw [hk]; decide)
  | loop _ hd => exact hd hk
  | doLoop _ hturn =>
    cases hturn with
    | again hs' hbody hon _ =>
      obtain rfl := Option.some.inj (hs.symm.trans hs')
      rw [hbody.goesOn_eq_false (hj.of_role? hs) h] at hon
      cases hon
    | loopBreak hs' hbody => cases hbody.not_jumps (hj.of_role? hs')
    | leaves hs' hbody =>
      obtain rfl := Option.some.inj (hs.symm.trans hs')
      exact h inTry [] hbody
  | consequence hk' | alternative hk' | noAlternative hk' | withStatement hk' | labelled hk'
  | labelledBreak hk' | tryStatement hk' | finalizer hk' | abruptFinalizer hk' | noClause hk'
  | clause hk' | clauseBreak hk' => exact absurd (hk.symm.trans hk') (by decide)

namespace Sample

def jumpFree : List Char :=
  "\x7b do x; while (x); try \x7b return; \x7d catch \x7b throw x; \x7d \x7d".toList

def plainBody : ParseTree :=
  named "expression_statement" 5 7 (some "body") [named "identifier" 5 6 none [], token ";" 6]

def plainDo : ParseTree :=
  named "do_statement" 2 18 none [token "do" 2, plainBody, token "while" 8,
    named "parenthesized_expression" 14 17 (some "condition")
      [token "(" 14, named "identifier" 15 16 none [], token ")" 16], token ";" 17]

def guardedReturn : ParseTree :=
  named "try_statement" 19 53 none [token "try" 19,
    named "statement_block" 23 34 (some "body") [token "\x7b" 23,
      named "return_statement" 25 32 none [token "return" 25, token ";" 31], token "\x7d" 33],
    named "catch_clause" 35 53 (some "handler") [token "catch" 35,
      named "statement_block" 41 53 (some "body") [token "\x7b" 41,
        named "throw_statement" 43 51 none
          [token "throw" 43, named "identifier" 49 50 none [], token ";" 50], token "\x7d" 52]]]

def jumpFreeBlock : ParseTree :=
  named "statement_block" 0 55 none [token "\x7b" 0, plainDo, guardedReturn, token "\x7d" 54]

/-- The only such body is `x;`. -/
theorem bodiesComplete_jumpFreeBlock : BodiesComplete jumpFree jumpFreeBlock := by
  have hdos : jumpFreeBlock.nodes.filter (["with_statement", "do_statement"].contains ·.kind) =
      [plainDo] := rfl
  intro n hn hr s hs h
  have hkind : ["with_statement", "do_statement"].contains n.kind = true := by
    rcases hr with hk | ⟨hk, -⟩ <;> simp [hk]
  obtain rfl : n = plainDo := List.mem_singleton.mp (hdos ▸ List.mem_filter.mpr ⟨hn, hkind⟩)
  obtain rfl : plainBody = s := Option.some.inj hs
  exact h false [] (.plain (by decide))

theorem alwaysReturns_jumpFreeBlock :
    JumpFree jumpFreeBlock ∧ BodiesComplete jumpFree jumpFreeBlock ∧
      NeverCompletes jumpFree jumpFreeBlock ∧ alwaysReturns jumpFreeBlock = true ∧
      ∀ o f, missingReturns jumpFree o f jumpFreeBlock = [] := by
  have hj : JumpFree jumpFreeBlock := by decide +kernel
  have hn : NestedWithin 256 jumpFreeBlock := by decide +kernel
  have h : NeverCompletes jumpFree jumpFreeBlock :=
    (secure_of_nestedWithin hn (hj.wellAimed hn) (by decide +kernel)).neverCompletes
  exact ⟨hj, bodiesComplete_jumpFreeBlock, h,
    alwaysReturns_of_neverCompletes hj bodiesComplete_jumpFreeBlock h⟩

def returningBody : ParseTree :=
  named "statement_block" 3 14 (some "body") [token "\x7b" 3,
    named "return_statement" 5 12 none [token "return" 5, token ";" 11], token "\x7d" 13]

/-- `do { return; } while (x);` -/
def returningDo : ParseTree :=
  named "do_statement" 0 25 none [token "do" 0, returningBody, token "while" 15,
    named "parenthesized_expression" 21 24 (some "condition")
      [token "(" 21, named "identifier" 22 23 none [], token ")" 23], token ";" 24]

/-- The body of the `do` returns, but only the condition is looked at. -/
theorem not_alwaysReturns_of_neverCompletes :
    ¬ ∀ source t, NestedWithin 256 t → JumpFree t → NeverCompletes source t →
      alwaysReturns t = true := by
  intro h
  have hj : JumpFree returningDo := by decide +kernel
  have hbody : role? "body" returningDo = some returningBody := rfl
  have hjs : JumpFree returningBody := hj.of_role? hbody
  have hn : NestedWithin 256 returningBody := by decide +kernel
  have hs : NeverCompletes [] returningBody :=
    (secure_of_nestedWithin hn (hjs.wellAimed hn) (by decide +kernel)).neverCompletes
  have hdo : NeverCompletes [] returningDo := neverCompletes_do hj rfl hbody hs
  exact absurd (h [] returningDo (by decide +kernel) hj hdo) (by decide +kernel)

end Sample

end SnippetLint.TypeScript

