import SnippetLint.Pass.CDialect
import SnippetLint.Proofs.Text.Lines

/-! Definitions of functions without a prototype. The pass goes over the lines once and gathers
names on the way; a report hangs on its own line and on the lines before it, and on nothing else. -/
namespace SnippetLint.CDialect
open Text

/-- The line has both a parenthesis and a semicolon, and the name is one of its words. -/
def Announces (line : List Char) (name : String) : Prop :=
  '(' ∈ line ∧ ';' ∈ line ∧ name ∈ (words line).map Word.text

/-- The line begins like the definition of a function that needs a prototype. -/
structure Defines (line : List Char) (head : Head) : Prop where
  noSemicolon : ';' ∉ line
  head_eq : functionHead? line = some head
  name_ne : String.ofList head.name ≠ "main"
  name_not_mem : String.ofList head.name ∉ statementWords
  type_not_mem : String.ofList head.type ∉ statementWords

def prototypeWarning (n : ℕ) (name : String) : Diagnostic :=
  .warning ⟨n, 1⟩ ("Function '" ++ name ++ "' might be missing a prototype declaration")

variable {declared : List String} {n : ℕ} {line : List Char} {ls : List (List Char)}
  {d : Diagnostic}

/-- The names that the pass gathers on a line with a semicolon. -/
theorem mem_gathered_iff (h : ';' ∈ line) (name : String) :
    name ∈ (if line.contains '(' then (words line).map Word.text else []) ↔
      Announces line name := by
  unfold Announces
  by_cases hopen : '(' ∈ line <;> simp [hopen, h]

theorem missingPrototype?_eq_some_iff (h : ';' ∉ line) :
    missingPrototype? declared n line = some d ↔ ∃ head, Defines line head ∧
      String.ofList head.name ∉ declared ∧ d = prototypeWarning n (String.ofList head.name) := by
  unfold missingPrototype?
  cases hhead : functionHead? line with
  | none =>
    refine iff_of_false (Option.some_ne_none d).symm ?_
    rintro ⟨head, hdef, -⟩
    exact Option.some_ne_none head (hdef.head_eq.symm.trans hhead)
  | some head =>
    have hdefines : (∃ x, Defines line x ∧ String.ofList x.name ∉ declared ∧
          d = prototypeWarning n (String.ofList x.name)) ↔
        Defines line head ∧ String.ofList head.name ∉ declared ∧
          d = prototypeWarning n (String.ofList head.name) := by
      constructor
      · rintro ⟨x, hdef, hx⟩
        obtain rfl : x = head := Option.some.inj (hdef.head_eq.symm.trans hhead)
        exact ⟨hdef, hx⟩
      · exact fun hx => ⟨head, hx⟩
    rw [hdefines]
    dsimp only
    split_ifs with hskip
    · simp only [isStatementWord, Bool.or_eq_true, beq_iff_eq, List.contains_iff_mem] at hskip
      refine iff_of_false not_false ?_
      rintro ⟨hdef, hfree, -⟩
      rcases hskip with ((hmain | hname) | htype) | hdeclared
      · exact hdef.name_ne hmain
      · exact hdef.name_not_mem hname
      · exact hdef.type_not_mem htype
      · exact hfree hdeclared
    · simp only [isStatementWord, Bool.or_eq_true, beq_iff_eq, List.contains_iff_mem, not_or]
        at hskip
      obtain ⟨⟨⟨hmain, hname⟩, htype⟩, hdeclared⟩ := hskip
      rw [Option.some_inj, eq_comm]
      exact ⟨fun hd => ⟨⟨h, hhead, hmain, hname, htype⟩, hdeclared, hd⟩, fun hd => hd.2.2⟩

theorem mem_missingPrototypesFrom_iff :
    d ∈ missingPrototypesFrom declared n ls ↔ ∃ before line after,
      ls = before ++ line :: after ∧ ∃ head, Defines line head ∧
        String.ofList head.name ∉ declared ∧
        (∀ earlier ∈ before, ¬ Announces earlier (String.ofList head.name)) ∧
        d = prototypeWarning (n + before.length) (String.ofList head.name) := by
  induction ls generalizing declared n with
  | nil => simp [missingPrototypesFrom]
  | cons line rest ih =>
    rw [exists_append_cons_iff, missingPrototypesFrom]
    simp only [List.forall_mem_cons, List.length_cons]
    by_cases hs : ';' ∈ line
    -- A line with a semicolon adds what it announces, and is no definition.
    · rw [if_pos (List.contains_iff_mem.mpr hs), ih]
      simp only [List.mem_append, not_or, mem_gathered_iff hs, Nat.add_right_comm n 1,
        ← Nat.add_assoc]
      refine ⟨fun h => .inr ?_, fun h => ?_⟩
      · obtain ⟨before, x, after, hl, head, hdef, ⟨hline, hfree⟩, hbefore, hd⟩ := h
        exact ⟨before, x, after, hl, head, hdef, hfree, ⟨hline, hbefore⟩, hd⟩
      · rcases h with ⟨head, hdef, -⟩ | h
        · exact absurd hs hdef.noSemicolon
        · obtain ⟨before, x, after, hl, head, hdef, hfree, ⟨hline, hbefore⟩, hd⟩ := h
          exact ⟨before, x, after, hl, head, hdef, ⟨hline, hfree⟩, hbefore, hd⟩
    -- Without one it is only looked at.
    · have hquiet (name : String) : ¬ Announces line name := fun h => hs h.2.1
      rw [if_neg fun h => hs (List.contains_iff_mem.mp h), List.mem_append, Option.mem_toList,
        missingPrototype?_eq_some_iff hs, ih]
      simp only [hquiet, not_false_eq_true, true_and, List.not_mem_nil, IsEmpty.forall_iff,
        implies_true, List.length_nil, Nat.add_zero, Nat.add_right_comm n 1, ← Nat.add_assoc]

theorem line_of_mem_missingPrototypesFrom (h : d ∈ missingPrototypesFrom declared n ls) :
    n ≤ d.position.line := by
  obtain ⟨before, -, -, -, head, -, -, -, rfl⟩ := mem_missingPrototypesFrom_iff.mp h
  exact Nat.le_add_right n before.length

theorem pairwise_missingPrototypesFrom (declared : List String) (n : ℕ) (ls : List (List Char)) :
    (missingPrototypesFrom declared n ls).Pairwise (·.position.line < ·.position.line) := by
  induction ls generalizing declared n with
  | nil => exact .nil
  | cons line rest ih =>
    rw [missingPrototypesFrom]
    by_cases hs : ';' ∈ line
    · rw [if_pos (List.contains_iff_mem.mpr hs)]
      exact ih _ _
    · rw [if_neg fun h => hs (List.contains_iff_mem.mp h)]
      refine List.pairwise_append.mpr ⟨?_, ih _ _, fun d hd e he => ?_⟩
      · cases missingPrototype? declared n line with
        | none => exact .nil
        | some d => exact List.pairwise_singleton _ d
      · rw [Option.mem_toList, missingPrototype?_eq_some_iff hs] at hd
        obtain ⟨head, -, -, rfl⟩ := hd
        exact line_of_mem_missingPrototypesFrom he

/-- A function is reported at its own line, once and in the order of the lines, exactly if no line
before that one announces it. -/
theorem missingPrototypes_by_earlier_lines (masked : List Char) :
    (∀ d, d ∈ missingPrototypes masked ↔ ∃ line n head, (line, n) ∈ numbered masked ∧
      Defines line head ∧
      (∀ earlier k, (earlier, k) ∈ numbered masked → k < n →
        ¬ Announces earlier (String.ofList head.name)) ∧
      d = prototypeWarning n (String.ofList head.name)) ∧
    (missingPrototypes masked).Pairwise (·.position.line < ·.position.line) := by
  refine ⟨fun d => ?_, pairwise_missingPrototypesFrom [] 1 (lines masked)⟩
  rw [missingPrototypes, mem_missingPrototypesFrom_iff]
  constructor
  · rintro ⟨before, line, after, hlines, head, hdef, -, hbefore, rfl⟩
    refine ⟨line, before.length + 1, head, mem_numbered_iff_append.mpr ⟨_, _, hlines, rfl⟩, hdef,
      fun earlier k hk hlt =>
        hbefore earlier ((mem_before_iff hlines).mpr ⟨k, hk, Nat.le_of_lt_succ hlt⟩), ?_⟩
    rw [Nat.add_comm]
  · rintro ⟨line, n, head, hline, hdef, hbefore, rfl⟩
    obtain ⟨before, after, hlines, rfl⟩ := mem_numbered_iff_append.mp hline
    refine ⟨before, line, after, hlines, head, hdef, List.not_mem_nil, fun earlier hm => ?_, ?_⟩
    · obtain ⟨k, hk, hlt⟩ := (mem_before_iff hlines).mp hm
      exact hbefore earlier k hk (Nat.lt_succ_of_le hlt)
    · rw [Nat.add_comm]

end SnippetLint.CDialect
