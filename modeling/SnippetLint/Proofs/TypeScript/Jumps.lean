import SnippetLint.Proofs.TypeScript.JumpSearch
import SnippetLint.Proofs.TypeScript.Parts

/-! Every `break` that leaves a statement as it runs is one that the search for jumps finds. -/
namespace SnippetLint.TypeScript
open ParseTree

variable {source : List Char} {t s : ParseTree}

section
variable {target : Target} {inLoop inSwitch : Bool}

theorem escapesFromAny_of_mem {ts : List ParseTree} (hs : s ∈ ts) (hn : s.named = true)
    (h : escapesFrom target inLoop inSwitch s = true) :
    escapesFromAny target inLoop inSwitch ts = true :=
  escapesFromAny_eq_true.mpr ⟨s, hs, Bool.and_eq_true_iff.mpr ⟨hn, h⟩⟩

theorem escapesFrom_of_children (hf : t.kind ∉ functionKinds) (hc : t.kind ≠ "class_body")
    (h : escapesFromAny target (inLoop || loopKinds.contains t.kind)
      (inSwitch || t.kind == "switch_statement") t.children = true) :
    escapesFrom target inLoop inSwitch t = true := by
  have hf' : isFunction t = false := by simpa [isFunction] using hf
  rw [escapesFrom_eq, hf', beq_false_of_ne hc, h, Bool.or_eq_true]
  exact .inr rfl

/-- Kinds of nodes between a statement and its parts. -/
def innerKinds : List String :=
  ["catch_clause", "finally_clause", "switch_body"] ++ (clauseKinds ++ passedOverKinds)

theorem escapesFrom_of_mem_children (hk : t.kind ∈ innerKinds) (hs : s ∈ t.children)
    (hn : s.named = true) (h : escapesFrom target inLoop inSwitch s = true) :
    escapesFrom target inLoop inSwitch t = true := by
  have hkinds : ∀ k ∈ innerKinds, k ∉ functionKinds ∧ k ≠ "class_body" ∧
      loopKinds.contains k = false ∧ (k == "switch_statement") = false := by decide
  obtain ⟨hf, hc, hloop, hswitch⟩ := hkinds _ hk
  apply escapesFrom_of_children hf hc
  rw [hloop, hswitch, Bool.or_false, Bool.or_false]
  exact escapesFromAny_of_mem hs hn h

theorem escapesFromAny_of_role? {field : String} (hs : role? field t = some s)
    (h : escapesFrom target inLoop inSwitch s = true) :
    escapesFromAny target inLoop inSwitch t.children = true := by
  obtain ⟨hc, hn⟩ := role?_eq_some.mp hs
  exact escapesFromAny_of_mem (mem_children_of_child? hc) hn h

theorem escapesFromAny_of_clauseBody? {field kind : String}
    (hk : kind ∈ innerKinds) (hs : clauseBody? field kind t = some s)
    (h : escapesFrom target inLoop inSwitch s = true) :
    escapesFromAny target inLoop inSwitch t.children = true := by
  obtain ⟨r, hr, hrn, rfl, hc, hn⟩ := clauseBody?_eq_some.mp hs
  exact escapesFromAny_of_mem (mem_children_of_child? hr) hrn
    (escapesFrom_of_mem_children hk (mem_children_of_child? hc) hn h)

theorem escapesFromAny_of_clauses? {cs : List ParseTree} (hcs : clauses? t = some cs)
    (hs : s ∈ clauseStatements cs) (hn : s.named = true)
    (h : escapesFrom target inLoop inSwitch s = true) :
    escapesFromAny target inLoop inSwitch t.children = true := by
  obtain ⟨b, hb, hbn, hbk, hck, rfl⟩ := clauses?_eq_some.mp hcs
  obtain ⟨c, hc, hsc⟩ := List.mem_flatMap.mp hs
  obtain ⟨hcb, hcn⟩ := List.mem_filter.mp hc
  have hcs := escapesFrom_of_mem_children (List.mem_append_right _ (hck c hc))
    (List.mem_filter.mp hsc).1 hn h
  have hbs := escapesFrom_of_mem_children (by rw [hbk]; decide) hcb hcn hcs
  exact escapesFromAny_of_mem (mem_children_of_child? hb) hbn hbs

/-- A jump out of a part is seen from the statement. -/
theorem escapesFromAny_of_mem_parts (hs : s ∈ parts t)
    (h : escapesFrom target inLoop inSwitch s = true) :
    escapesFromAny target inLoop inSwitch t.children = true := by
  unfold parts at hs
  split_ifs at hs
  · obtain ⟨hc, hn⟩ := List.mem_filter.mp hs
    exact escapesFromAny_of_mem hc hn h
  · exact escapesFromAny_of_role? (Option.mem_toList.mp hs) h
  · rcases List.mem_append.mp hs with hs | hs
    · exact escapesFromAny_of_role? (Option.mem_toList.mp hs) h
    · exact escapesFromAny_of_role? (Option.mem_toList.mp hs) h
  · rcases List.mem_append.mp hs with hs | hs
    · rcases List.mem_append.mp hs with hs | hs
      · exact escapesFromAny_of_role? (Option.mem_toList.mp hs) h
      · exact escapesFromAny_of_clauseBody? (by decide) (Option.mem_toList.mp hs) h
    · exact escapesFromAny_of_clauseBody? (by decide) (Option.mem_toList.mp hs) h
  · cases hcs : clauses? t with
    | none =>
      rw [hcs] at hs
      exact absurd hs List.not_mem_nil
    | some cs =>
      rw [hcs] at hs
      obtain ⟨hc, hn⟩ := List.mem_filter.mp hs
      exact escapesFromAny_of_clauses? hcs hc hn h
  · exact absurd hs List.not_mem_nil

end

variable (source) in
/-- A `break` with this label, or with none, leaves the statement. -/
inductive BreaksTo (label : Option (List Char)) : ParseTree → Prop
  | here {t : ParseTree} (hk : t.kind = "break_statement") (hl : label? source t = label) :
      BreaksTo label t
  | under {t s : ParseTree} (hs : s ∈ parts t) (h : BreaksTo label s)
      (hb : label = none → bindsJumps t = false)
      (hl : t.kind = "labeled_statement" → label? source t ≠ label) : BreaksTo label t

theorem BreaksTo.escapesFrom {label : Option (List Char)} (h : BreaksTo source label t)
    (target : Target) {inLoop inSwitch : Bool}
    (hin : label = none → inLoop = false ∧ inSwitch = false) :
    escapesFrom target inLoop inSwitch t = true := by
  induction h generalizing inLoop inSwitch with
  | @here t hk hl =>
    have hleaves : leaves target inLoop inSwitch t = true := by
      unfold leaves
      cases label with
      | none => simp [hk, hin rfl]
      | some label =>
        obtain ⟨r, hr, -⟩ := Option.map_eq_some_iff.mp hl
        simp [hk, hr]
    rw [escapesFrom_eq, hleaves, Bool.true_or]
  | @under t s hs h hb hl ih =>
    have hkinds : ∀ k ∈ controlKinds, k ∉ functionKinds ∧ k ≠ "class_body" := by decide
    obtain ⟨hf, hc⟩ := hkinds _ (mem_controlKinds_of_mem_parts hs)
    apply escapesFrom_of_children hf hc
    apply escapesFromAny_of_mem_parts hs
    apply ih
    intro hn
    obtain ⟨hloop, hswitch⟩ := Bool.or_eq_false_iff.mp (hb hn)
    rw [(hin hn).1, (hin hn).2, hloop, hswitch]
    exact ⟨rfl, rfl⟩

/-- A `break` that leaves a part of a loop or a `switch` is one that can leave the whole. -/
theorem escapes_of_breaksTo {label : Option (List Char)} (target : Target) (hs : s ∈ parts t)
    (h : BreaksTo source label s) : escapes target t = true := by
  rw [escapes_eq_escapesFromAny]
  exact escapesFromAny_of_mem_parts hs (h.escapesFrom target fun _ => ⟨rfl, rfl⟩)

theorem BreaksTo.not_mem_of_wellAimed {label : List Char} {astray : List (List Char)}
    (h : BreaksTo source (some label) t) (ha : WellAimed source astray t) : label ∉ astray := by
  induction h generalizing astray with
  | here hk hl =>
    cases ha with
    | intro hb _ => exact hb hk label hl
  | under hs _ _ hl ih =>
    cases ha with
    | intro _ hparts => exact fun hm => ih (hparts _ hs) (mem_astrayIn hm hl)

/-- What a `break` out of a task tells of its statements. -/
def BreaksOut (source : List Char) (label : Option (List Char)) : Task → Prop
  | .statement _ t => BreaksTo source label t
  | .sequence ts => ∃ s ∈ ts, s.named = true ∧ BreaksTo source label s
  | .guarded t => t.kind = "try_statement" → ∃ s ∈ parts t, BreaksTo source label s
  | .test _ t => t.kind ∈ loopKinds → label ≠ none ∧ ∃ s ∈ parts t, BreaksTo source label s
  | .turn _ t => t.kind ∈ loopKinds → label ≠ none ∧ ∃ s ∈ parts t, BreaksTo source label s

/-- Statements that pass every jump on. -/
theorem BreaksTo.pass {label : Option (List Char)}
    (hk : t.kind ∈ ["if_statement", "try_statement", "with_statement"] ++ sequenceKinds)
    (hs : s ∈ parts t) (h : BreaksTo source label s) : BreaksTo source label t := by
  have hkinds : ∀ k ∈ ["if_statement", "try_statement", "with_statement"] ++ sequenceKinds,
      (loopKinds.contains k || k == "switch_statement") = false ∧ k ≠ "labeled_statement" := by
    decide
  exact .under hs h (fun _ => (hkinds _ hk).1) fun hl => absurd hl (hkinds _ hk).2

theorem BreaksTo.passLabel {label : Option (List Char)} (hb : bindsJumps t = true)
    (hs : s ∈ parts t) (h : BreaksTo source label s) (hn : label ≠ none) :
    BreaksTo source label t := by
  have hl : t.kind ≠ "labeled_statement" := by
    intro hk
    unfold bindsJumps at hb
    rw [hk] at hb
    exact absurd hb (by decide)
  exact .under hs h (fun hc => absurd hc hn) fun hk => absurd hk hl

/-- A `break` goes by everything that does not bind it. -/
theorem Runs.breaksOut {inTry : Bool} {w : Task} {c : Completion} {label : Option (List Char)}
    (h : Runs source inTry w c) (hc : c = .breaks label) : BreaksOut source label w := by
  induction h with
  | throws | plain | returnStatement | throwStatement | continueStatement | noAlternative
  | labelledBreak | noClause | clauseBreak | ends | loopBreak | nil => cases hc
  | breakStatement hk => exact .here hk (Completion.breaks.inj hc)
  | block hk _ ih =>
    obtain ⟨s, hs, -, hb⟩ := ih hc
    rw [← parts_of_sequence hk] at hs
    exact .pass (List.mem_append_right _ hk) hs hb
  | consequence hk hs _ ih =>
    exact .pass (by simp [hk]) (mem_parts_if hk (.inl hs)) (ih hc)
  | alternative hk hs _ ih =>
    exact .pass (by simp [hk]) (mem_parts_if hk (.inr hs)) (ih hc)
  | withStatement hk hs _ ih =>
    exact .pass (by simp [hk]) (mem_parts_body (by simp [hk, bodyKinds]) hs) (ih hc)
  | labelled hk hl hs _ hne ih =>
    refine .under (mem_parts_body (by simp [hk, bodyKinds]) hs) (ih hc) ?_ ?_
    · exact fun _ => by simp [bindsJumps, hk, loopKinds]
    · rintro - rfl
      rw [hl] at hc
      exact hne hc
  | tryStatement hk _ _ ih =>
    obtain ⟨s, hs, hb⟩ := ih hc hk
    exact .pass (by simp [hk]) hs hb
  | finalizer hk _ _ _ ih _ =>
    obtain ⟨s, hs, hb⟩ := ih hc hk
    exact .pass (by simp [hk]) hs hb
  | abruptFinalizer hk _ hs _ _ _ ih =>
    exact .pass (by simp [hk]) (mem_parts_try hk (.inr (.inr hs))) (ih hc)
  | unguarded hs _ _ ih => exact fun hk => ⟨_, mem_parts_try hk (.inl hs), ih hc⟩
  | handled _ _ hr _ _ ih =>
    exact fun hk => ⟨_, mem_parts_try hk (.inr (.inl hr)), ih hc⟩
  | clause hk hcs _ _ hne ih =>
    obtain ⟨s, hs, hn, hb⟩ := ih hc
    refine .passLabel (by simp [bindsJumps, hk]) (mem_parts_clause hk hcs hs hn) hb ?_
    rintro rfl
    exact hne hc
  | loop hk _ _ ih =>
    obtain ⟨hn, s, hs, hb⟩ := ih hc hk
    exact .passLabel (bindsJumps_of_loop hk) hs hb hn
  | @doLoop _ _ t _ hk _ ih =>
    have hl : t.kind ∈ loopKinds := by
      rw [hk]
      decide
    obtain ⟨hn, s, hs, hb⟩ := ih hc hl
    exact .passLabel (bindsJumps_of_loop hl) hs hb hn
  | enters _ ih => exact ih hc
  | again _ _ _ _ _ ih => exact ih hc
  | leaves hs _ _ hne ih =>
    intro hk
    refine ⟨?_, _, mem_parts_body (loopKinds_subset _ hk) hs, ih hc⟩
    rintro rfl
    exact hne hc
  | next _ _ _ _ ih =>
    obtain ⟨s, hs, hn, hb⟩ := ih hc
    exact ⟨s, List.mem_cons_of_mem _ hs, hn, hb⟩
  | stop hn _ _ ih => exact ⟨_, List.mem_cons_self, hn, ih hc⟩

end SnippetLint.TypeScript
