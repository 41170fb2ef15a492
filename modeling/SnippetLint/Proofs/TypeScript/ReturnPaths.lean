import SnippetLint.Proofs.TypeScript.Jumps

/-! A statement that is taken to return has no execution that goes on behind it. -/
namespace SnippetLint.TypeScript
open ParseTree

variable {source : List Char} {t s : ParseTree}

/-- All of a sequence that is run to its end completes. -/
theorem Runs.of_sequence {inTry : Bool} {ts : List ParseTree}
    (h : Runs source inTry (.sequence ts) .normal) :
    ∀ s ∈ ts, s.named = true ∧ Runs source inTry (.statement [] s) .normal := by
  induction ts with
  | nil => exact fun s hs => absurd hs List.not_mem_nil
  | cons t ts ih =>
    cases h with
    | next hn ht hts =>
      intro s hs
      rcases List.mem_cons.mp hs with rfl | hs
      · exact ⟨hn, ht⟩
      · exact ih hts s hs
    | stop _ _ hc => exact absurd rfl hc

theorem firstAlwaysTrue_eq (ts : List ParseTree) :
    firstAlwaysTrue ts = (ts.find? named).any alwaysTrue := by
  induction ts with
  | nil => rfl
  | cons t ts ih =>
    rw [firstAlwaysTrue, List.find?_cons]
    cases t.named with
    | true => rfl
    | false => exact ih

mutual

theorem literallyTrue_of_alwaysTrue : ∀ t : ParseTree, alwaysTrue t = true → LiterallyTrue t
  | node l cs => by
    intro h
    unfold alwaysTrue at h
    simp only [Bool.or_eq_true, Bool.and_eq_true, beq_iff_eq] at h
    rcases h with (hk | hk) | ⟨hk, hcs⟩
    · exact .literal hk
    · exact .absent hk
    · obtain ⟨s, hs, hn, ht⟩ := exists_of_firstAlwaysTrue cs hcs
      exact .parenthesized hk (List.mem_filter.mpr ⟨hs, hn⟩) ht

theorem exists_of_firstAlwaysTrue : ∀ cs : List ParseTree, firstAlwaysTrue cs = true →
    ∃ s ∈ cs, s.named = true ∧ LiterallyTrue s
  | [] => by
    intro h
    exact absurd h Bool.false_ne_true
  | c :: cs => by
    intro h
    unfold firstAlwaysTrue at h
    split_ifs at h with hn
    · exact ⟨c, List.mem_cons_self, hn, literallyTrue_of_alwaysTrue c h⟩
    · obtain ⟨s, hs, hsn, ht⟩ := exists_of_firstAlwaysTrue cs h
      exact ⟨s, List.mem_cons_of_mem _ hs, hsn, ht⟩

end

theorem endless_of_isEndless (h : isEndless t = true) : Endless t := by
  unfold isEndless at h
  unfold Endless
  cases hc : t.child? "condition" with
  | some c =>
    rw [hc] at h
    exact literallyTrue_of_alwaysTrue c h
  | none =>
    rw [hc] at h
    exact beq_iff_eq.mp h

/-- Neither its condition nor a `break` ends the loop. -/
theorem Runs.ne_normal_of_endless {inTry : Bool} {w : Task} {c : Completion}
    (h : Runs source inTry w c) (hk : t.kind ∈ loopKinds) (he : Endless t)
    (hb : ∀ s ∈ parts t, ¬ BreaksTo source none s)
    (hw : ∃ labels, w = .test labels t ∨ w = .turn labels t) : c ≠ .normal := by
  induction h with
  | ends hn =>
    obtain ⟨labels, hw | hw⟩ := hw <;> cases hw
    exact absurd he hn
  | enters _ ih =>
    obtain ⟨labels, hw | hw⟩ := hw <;> cases hw
    exact ih ⟨_, .inr rfl⟩
  | again _ _ _ _ _ ih =>
    obtain ⟨labels, hw | hw⟩ := hw <;> cases hw
    exact ih ⟨_, .inl rfl⟩
  | loopBreak hs h =>
    obtain ⟨labels, hw | hw⟩ := hw <;> cases hw
    have hout : BreaksOut source none (.statement [] _) := h.breaksOut rfl
    exact absurd hout (hb _ (mem_parts_body (loopKinds_subset _ hk) hs))
  | leaves _ _ hg =>
    rintro rfl
    cases hg
  | _ => obtain ⟨labels, hw | hw⟩ := hw <;> cases hw

section
variable {levels : ℕ}

theorem returnsWithin_of_not_control (hk : t.kind ∉ controlKinds) :
    returnsWithin (levels + 1) t = false := by
  unfold returnsWithin
  dsimp only
  split <;> rename_i h <;> first | exact absurd (by rw [h]; decide) hk | rfl

theorem returnsWithin_with (hk : t.kind = "with_statement") :
    returnsWithin (levels + 1) t = false := by
  simp [returnsWithin, hk]

theorem returnsWithin_sequence (hk : t.kind ∈ sequenceKinds)
    (h : returnsWithin (levels + 1) t = true) :
    ∃ s ∈ t.namedChildren, returnsWithin levels s = true := by
  have hk' : t.kind = "statement_block" ∨ t.kind = "else_clause" := by
    simpa [sequenceKinds] using hk
  rcases hk' with hk | hk
  · simpa [returnsWithin, hk] using h
  · simp only [returnsWithin, hk] at h
    obtain ⟨s, hs, h⟩ := (Option.any_eq_true _ _).mp h
    exact ⟨s, List.mem_of_head? hs, h⟩

theorem returnsWithin_if (hk : t.kind = "if_statement")
    (h : returnsWithin (levels + 1) t = true) :
    (t.child? "consequence").any (returnsWithin levels) = true ∧
      (t.child? "alternative").any (returnsWithin levels) = true := by
  simpa [returnsWithin, hk] using h

theorem returnsWithin_labelled (hk : t.kind = "labeled_statement")
    (h : returnsWithin (levels + 1) t = true) :
    (t.child? "body").any (returnsWithin levels) = true := by
  simpa [returnsWithin, hk] using h

theorem returnsWithin_try (hk : t.kind = "try_statement")
    (h : returnsWithin (levels + 1) t = true) :
    ((t.child? "finalizer").bind (child? "body")).any (returnsWithin levels) = true ∨
      (t.child? "body").any (returnsWithin levels) = true ∧
        (t.child? "handler").all (fun r => (r.child? "body").any (returnsWithin levels)) =
          true := by
  simpa [returnsWithin, hk] using h

theorem returnsWithin_switch {cs : List ParseTree} (hk : t.kind = "switch_statement")
    (hcs : clauses? t = some cs) (h : returnsWithin (levels + 1) t = true) :
    (∃ c ∈ cs, c.kind = "switch_default") ∧ escapes .switch t = false ∧
      ∃ last ∈ cs.getLast?, ∃ s ∈ last.childrenIn "body", returnsWithin levels s = true := by
  obtain ⟨b, hb, -, -, -, rfl⟩ := clauses?_eq_some.mp hcs
  simp only [returnsWithin, hk, hb, Bool.and_eq_true, List.any_eq_true, beq_iff_eq,
    Bool.not_eq_eq_eq_not, Bool.not_true, Option.any_eq_true] at h
  obtain ⟨⟨hd, he⟩, hl⟩ := h
  exact ⟨hd, he, hl⟩

theorem returnsWithin_loop (hk : t.kind ∈ loopKinds) (h : returnsWithin (levels + 1) t = true) :
    isEndless t = true ∧ escapes .loop t = false := by
  simp only [loopKinds, List.mem_cons, List.not_mem_nil, or_false] at hk
  rcases hk with hk | hk | hk | hk <;> simp [returnsWithin, hk] at h
  · exact h
  · exact h
  · exact h

end

/-- A statement that control stays in, and all breaks inside a loop or a `switch` with it. -/
structure Secure (source : List Char) (t : ParseTree) : Prop where
  neverCompletes : NeverCompletes source t
  noBreak : bindsJumps t = true → ∀ s ∈ parts t, ∀ label, ¬ BreaksTo source label s

theorem any_of_role? {field : String} {p : ParseTree → Bool} (hs : role? field t = some s)
    (h : (t.child? field).any p = true) : p s = true := by
  rw [(role?_eq_some.mp hs).1] at h
  exact h

theorem BreaksTo.exists_of_bindsJumps {label : Option (List Char)} (h : BreaksTo source label t)
    (hb : bindsJumps t = true) : ∃ s ∈ parts t, BreaksTo source label s := by
  cases h with
  | here hk hl =>
    unfold bindsJumps at hb
    rw [hk] at hb
    exact absurd hb (by decide)
  | under hs h _ _ => exact ⟨_, hs, h⟩

theorem not_breaksTo_of_returnsWithin {levels : ℕ} (hb : bindsJumps t = true)
    (h : returnsWithin (levels + 1) t = true) :
    ∀ s ∈ parts t, ∀ label, ¬ BreaksTo source label s := by
  intro s hs label hout
  by_cases hk : t.kind ∈ loopKinds
  · have he := escapes_of_breaksTo .loop hs hout
    rw [(returnsWithin_loop hk h).2] at he
    exact Bool.false_ne_true he
  · have hk' : t.kind = "switch_statement" := by
      simpa [bindsJumps, hk] using hb
    have he := escapes_of_breaksTo .switch hs hout
    rw [parts_switch hk'] at hs
    cases hcs : clauses? t with
    | none =>
      rw [hcs] at hs
      exact absurd hs List.not_mem_nil
    | some cs =>
      rw [(returnsWithin_switch hk' hcs h).2.1] at he
      exact Bool.false_ne_true he

theorem not_normal_loop {levels : ℕ} {inTry : Bool} {w : Task} (hk : t.kind ∈ loopKinds)
    (h : returnsWithin (levels + 1) t = true)
    (hw : ∃ labels, w = .test labels t ∨ w = .turn labels t) : ¬ Runs source inTry w .normal := by
  intro hr
  have he : Endless t := endless_of_isEndless (returnsWithin_loop hk h).1
  have hb : ∀ s ∈ parts t, ¬ BreaksTo source none s :=
    fun s hs => not_breaksTo_of_returnsWithin (bindsJumps_of_loop hk) h s hs none
  exact hr.ne_normal_of_endless hk he hb hw rfl

section
variable {levels : ℕ} (ih : ∀ s ∈ parts t, returnsWithin levels s = true → Secure source s)
include ih

theorem secure_of_labelled (hk : t.kind = "labeled_statement") (hs : role? "body" t = some s)
    (h : returnsWithin (levels + 1) t = true) : Secure source s := by
  have hp : s ∈ parts t := mem_parts_body (by simp [hk, bodyKinds]) hs
  exact ih s hp (any_of_role? hs (returnsWithin_labelled hk h))

theorem not_normal_guarded {inTry : Bool} (hk : t.kind = "try_statement")
    (hb : (t.child? "body").any (returnsWithin levels) = true)
    (hh : (t.child? "handler").all (fun r => (r.child? "body").any (returnsWithin levels)) = true) :
    ¬ Runs source inTry (.guarded t) .normal := by
  intro hr
  cases hr with
  | @unguarded _ _ s _ hs hr _ =>
    have hp : s ∈ parts t := mem_parts_try hk (.inl hs)
    exact (ih s hp (any_of_role? hs hb)).neverCompletes _ _ hr
  | @handled _ _ _ r _ _ _ hc hr =>
    have hp : r ∈ parts t := mem_parts_try hk (.inr (.inl hc))
    obtain ⟨handler, hc, -, -, hb, -⟩ := clauseBody?_eq_some.mp hc
    rw [hc] at hh
    have hr' : (handler.child? "body").any (returnsWithin levels) = true := hh
    rw [hb] at hr'
    exact (ih r hp hr').neverCompletes _ _ hr

theorem not_normal_try {inTry : Bool} (hk : t.kind = "try_statement")
    (h : returnsWithin (levels + 1) t = true)
    (hf : ((t.child? "finalizer").bind (child? "body")).any (returnsWithin levels) = false) :
    ¬ Runs source inTry (.guarded t) .normal := by
  rcases returnsWithin_try hk h with h | ⟨hb, hh⟩
  · rw [h] at hf
    cases hf
  · exact not_normal_guarded ih hk hb hh

/-- Control runs off the last clause, whichever it came in by. -/
theorem not_normal_clauses {inTry : Bool} {e : ParseTree} {before after : List ParseTree}
    (hk : t.kind = "switch_statement") (h : returnsWithin (levels + 1) t = true)
    (hcs : clauses? t = some (before ++ e :: after)) :
    ¬ Runs source inTry (.sequence (clauseStatements (e :: after))) .normal := by
  intro hr
  obtain ⟨-, -, last, hlast, s, hs, h⟩ := returnsWithin_switch hk hcs h
  rw [List.getLast?_append_of_ne_nil _ (List.cons_ne_nil e after)] at hlast
  have hsc : s ∈ clauseStatements (e :: after) :=
    List.mem_flatMap.mpr ⟨last, List.mem_of_getLast? hlast, hs⟩
  obtain ⟨hn, hr⟩ := hr.of_sequence s hsc
  exact (ih s (mem_parts_clause hk hcs hsc hn) h).neverCompletes _ _ hr

theorem neverCompletes_of_parts {astray : List (List Char)} (ha : WellAimed source astray t)
    (h : returnsWithin (levels + 1) t = true) : NeverCompletes source t := by
  intro inTry labels hr
  cases hr with
  | plain hk =>
    rw [returnsWithin_of_not_control hk] at h
    cases h
  | block hk hr =>
    obtain ⟨s, hs, h⟩ := returnsWithin_sequence hk h
    obtain ⟨-, hr⟩ := hr.of_sequence s hs
    rw [← parts_of_sequence hk] at hs
    exact (ih s hs h).neverCompletes _ _ hr
  | @consequence _ _ _ s _ hk hs hr =>
    have hp : s ∈ parts t := mem_parts_if hk (.inl hs)
    exact (ih s hp (any_of_role? hs (returnsWithin_if hk h).1)).neverCompletes _ _ hr
  | @alternative _ _ _ s _ hk hs hr =>
    have hp : s ∈ parts t := mem_parts_if hk (.inr hs)
    exact (ih s hp (any_of_role? hs (returnsWithin_if hk h).2)).neverCompletes _ _ hr
  | noAlternative hk hs =>
    have ha := (returnsWithin_if hk h).2
    rw [hs] at ha
    cases ha
  | withStatement hk _ _ =>
    rw [returnsWithin_with hk] at h
    cases h
  | labelled hk _ hs hr _ => exact (secure_of_labelled ih hk hs h).neverCompletes _ _ hr
  | @labelledBreak _ _ _ s label hk hl hs hr =>
    -- No `break` leaves the parts of a loop or a `switch`, and anything else makes the label
    -- astray.
    have hout : BreaksTo source (some label) s := hr.breaksOut rfl
    by_cases hb : bindsJumps s = true
    · obtain ⟨r, hr, hout⟩ := hout.exists_of_bindsJumps hb
      exact (secure_of_labelled ih hk hs h).noBreak hb r hr _ hout
    · cases ha with
      | intro _ hparts =>
        have hp : s ∈ parts t := mem_parts_body (by simp [hk, bodyKinds]) hs
        apply hout.not_mem_of_wellAimed (hparts s hp)
        simp [astrayIn, hk, hl, hb]
  | tryStatement hk hf hr =>
    exact not_normal_try ih hk h (by rw [hf]; rfl) hr
  | @finalizer _ _ _ s _ hk hr hs hf =>
    by_cases hret : returnsWithin levels s = true
    · have hp : s ∈ parts t := mem_parts_try hk (.inr (.inr hs))
      exact (ih s hp hret).neverCompletes _ _ hf
    · obtain ⟨f, hf, -, -, hb, -⟩ := clauseBody?_eq_some.mp hs
      refine not_normal_try ih hk h ?_ hr
      rw [hf, Option.bind_some, hb]
      exact Bool.eq_false_iff.mpr hret
  | abruptFinalizer _ _ _ _ hd => exact hd rfl
  | noClause hk hcs hd =>
    obtain ⟨⟨c, hc, hdef⟩, -⟩ := returnsWithin_switch hk hcs h
    exact hd c hc hdef
  | clause hk hcs _ hr _ => exact not_normal_clauses ih hk h hcs hr
  | clauseBreak hk hcs _ hr =>
    obtain ⟨s, hs, hn, hout⟩ := hr.breaksOut rfl
    have hb : bindsJumps t = true := by simp [bindsJumps, hk]
    exact not_breaksTo_of_returnsWithin hb h s (mem_parts_clause hk hcs hs hn) _ hout
  | loop hk _ hr => exact not_normal_loop hk h ⟨labels, .inl rfl⟩ hr
  | doLoop hd hr =>
    have hk : t.kind ∈ loopKinds := by
      rw [hd]
      decide
    exact not_normal_loop hk h ⟨labels, .inr rfl⟩ hr

theorem secure_of_parts {astray : List (List Char)} (ha : WellAimed source astray t)
    (h : returnsWithin (levels + 1) t = true) : Secure source t where
  neverCompletes := neverCompletes_of_parts ih ha h
  noBreak hb := not_breaksTo_of_returnsWithin hb h

end

/-- The parts make a statement secure, from the innermost ones on. -/
theorem secure_of_nestedWithin {n : ℕ} {astray : List (List Char)} (hn : NestedWithin n t)
    (ha : WellAimed source astray t) (h : returnsWithin (n + 1) t = true) : Secure source t := by
  induction n generalizing t astray with
  | zero =>
    refine secure_of_parts ?_ ha h
    intro s hs
    rw [show parts t = [] from hn] at hs
    exact absurd hs List.not_mem_nil
  | succ n ih =>
    refine secure_of_parts ?_ ha h
    intro s hs hr
    cases ha with
    | intro _ hparts => exact ih (hn s hs) (hparts s hs) hr

/-- Nothing that is taken to return has an execution that completes. -/
theorem neverCompletes_of_alwaysReturns (hn : NestedWithin 256 t) (ha : WellAimed source [] t)
    (h : alwaysReturns t = true) : NeverCompletes source t :=
  (secure_of_nestedWithin hn ha h).neverCompletes

namespace Sample

def code : List Char := "\x7b a: while (true) break a; return; \x7d".toList

def named (kind : String) (start stop : ℕ) (field : Option String) (cs : List ParseTree) :
    ParseTree :=
  .node ⟨kind, start, stop, true, false, false, false, field⟩ cs

def token (text : String) (start : ℕ) : ParseTree :=
  .node ⟨text, start, start + text.length, false, false, false, false, none⟩ []

def jump : ParseTree :=
  named "break_statement" 18 26 (some "body") [token "break" 18,
    named "statement_identifier" 24 25 (some "label") [], token ";" 25]

def loop : ParseTree :=
  named "while_statement" 5 26 (some "body") [token "while" 5,
    named "parenthesized_expression" 11 17 (some "condition")
      [token "(" 11, named "true" 12 16 none [], token ")" 16], jump]

def labelled : ParseTree :=
  named "labeled_statement" 2 26 none
    [named "statement_identifier" 2 3 (some "label") [], token ":" 3, loop]

def ret : ParseTree :=
  named "return_statement" 27 34 none [token "return" 27, token ";" 33]

/-- The tree of the code. -/
def block : ParseTree :=
  named "statement_block" 0 36 none [token "\x7b" 0, labelled, ret, token "\x7d" 35]

/-- The only label stands on a loop. -/
theorem wellAimed_block : WellAimed code [] block := by
  have hjump : WellAimed code [] jump :=
    .of_parts_eq (rfl : parts jump = []) (List.forall_mem_nil _)
  have hloop : WellAimed code [] loop :=
    .of_parts_eq (rfl : parts loop = [jump]) (List.forall_mem_singleton.mpr hjump)
  have hlabelled : WellAimed code [] labelled :=
    .of_parts_eq (rfl : parts labelled = [loop]) (List.forall_mem_singleton.mpr hloop)
  have hret : WellAimed code [] ret :=
    .of_parts_eq (rfl : parts ret = []) (List.forall_mem_nil _)
  refine .of_parts_eq (rfl : parts block = [labelled, ret]) ?_
  exact List.forall_mem_cons.mpr ⟨hlabelled, List.forall_mem_singleton.mpr hret⟩

theorem neverCompletes_block :
    NestedWithin 256 block ∧ WellAimed code [] block ∧ alwaysReturns block = true ∧
      NeverCompletes code block := by
  have hn : NestedWithin 256 block := by decide +kernel
  have h : alwaysReturns block = true := by decide +kernel
  exact ⟨hn, wellAimed_block, h, neverCompletes_of_alwaysReturns hn wellAimed_block h⟩

/-- The loop inside completes by its `break`. -/
example : Runs code false (.statement [] labelled) .normal := by
  refine .labelledBreak rfl rfl rfl (.loop (by decide) (by decide) (.enters ?_))
  exact .leaves rfl (.breakStatement rfl) rfl (by decide)

end Sample

end SnippetLint.TypeScript
