import SnippetLint.Proofs.Pass.Prototypes
import SnippetLint.Proofs.Text.Trimming

/-! Declarations below a statement of their block. The pass looks at one line above a declaration
only, the nearest that is not blank; a declaration or a directive in between hides the statement. -/
namespace SnippetLint.CDialect
open Text Source

/-- The last of the lines that is not blank. -/
def lastFilled? (before : List (List Char)) : Option (List Char) :=
  before.reverse.find? fun line => !(trim line).isEmpty

def lateWarning (n : ℕ) (line : List Char) : Diagnostic :=
  .warning ⟨n, (line.takeWhile isBlank).length + 1⟩
    "Variable declaration not at the beginning of a block (not allowed in C89/C90)"

/-- The line ends a statement with a semicolon, and neither declares nor directs. -/
structure ClosesStatement (line : List Char) : Prop where
  semicolon : (trim line).getLast? = some ';'
  noDirective : (trim line).head? ≠ some '#'
  noDeclaration : isDeclaration line = false

variable {previous : Option (List Char)} {n : ℕ} {line x : List Char}
  {before after : List (List Char)} {d : Diagnostic} {code masked : List Char}

theorem lastFilled?_cons (line : List Char) (before : List (List Char)) :
    lastFilled? (line :: before) =
      (lastFilled? before).or (if (trim line).isEmpty then none else some line) := by
  unfold lastFilled?
  rw [List.reverse_cons, List.find?_append]
  cases hblank : (trim line).isEmpty <;> simp [hblank]

theorem lastFilled?_eq_some_iff : lastFilled? before = some x ↔ trim x ≠ [] ∧
    ∃ above below, before = above ++ x :: below ∧ ∀ y ∈ below, trim y = [] := by
  simp only [lastFilled?, List.find?_eq_some_iff_append, Bool.not_eq_eq_eq_not, Bool.not_true,
    List.isEmpty_eq_false_iff, Bool.not_not, List.isEmpty_iff]
  refine and_congr_right fun _ => ⟨?_, ?_⟩
  · rintro ⟨xs, ys, hrev, hblank⟩
    refine ⟨ys.reverse, xs.reverse, ?_, fun y hy => hblank y (List.mem_reverse.mp hy)⟩
    rw [← List.reverse_reverse before, hrev, List.reverse_append, List.reverse_cons,
      List.append_assoc, List.singleton_append]
  · rintro ⟨above, below, rfl, hblank⟩
    refine ⟨below.reverse, above.reverse, ?_, fun y hy => hblank y (List.mem_reverse.mp hy)⟩
    rw [List.reverse_append, List.reverse_cons, List.append_assoc, List.singleton_append]

/-- The line that the pass carries along is the last one that is not blank. -/
theorem mem_lateDeclarationsFrom_iff {ls : List (List Char)} :
    d ∈ lateDeclarationsFrom previous n ls ↔ ∃ before line after, ls = before ++ line :: after ∧
      isDeclaration line = true ∧ ((lastFilled? before).or previous).any endsStatement = true ∧
      d = lateWarning (n + before.length) line := by
  induction ls generalizing previous n with
  | nil => simp [lateDeclarationsFrom]
  | cons line rest ih =>
    have hprevious (before : List (List Char)) :
        (lastFilled? before).or (if (trim line).isEmpty then previous else some line) =
          (lastFilled? (line :: before)).or previous := by
      rw [lastFilled?_cons, Option.or_assoc]
      cases (trim line).isEmpty <;> rfl
    have hrest : d ∈ lateDeclarationsFrom (if (trim line).isEmpty then previous else some line)
        (n + 1) rest ↔ ∃ before x after, rest = before ++ x :: after ∧ isDeclaration x = true ∧
          ((lastFilled? (line :: before)).or previous).any endsStatement = true ∧
          d = lateWarning (n + (before.length + 1)) x := by
      simp only [ih, hprevious, Nat.add_right_comm n 1, ← Nat.add_assoc]
    rw [exists_append_cons_iff, lateDeclarationsFrom, ← lateWarning]
    simp only [List.length_cons, List.length_nil, Nat.add_zero, ← hrest]
    have hnone : (lastFilled? []).or previous = previous := rfl
    rw [hnone]
    by_cases hlate : (isDeclaration line && previous.any endsStatement) = true
    · rw [if_pos hlate, List.mem_cons]
      rw [Bool.and_eq_true] at hlate
      simp only [hlate, true_and]
    · rw [if_neg hlate]
      rw [Bool.and_eq_true] at hlate
      refine ⟨.inr, fun h => h.resolve_left ?_⟩
      rintro ⟨hdecl, hends, -⟩
      exact hlate ⟨hdecl, hends⟩

theorem trim_ne_nil_of_endsStatement (h : endsStatement x = true) : trim x ≠ [] := by
  intro hnil
  simp [endsStatement, hnil] at h

/-- The nearest line above that is not blank, by the numbers of the lines. -/
theorem any_lastFilled?_iff (h : lines masked = before ++ after) :
    (lastFilled? before).any endsStatement = true ↔ ∃ x k, (x, k) ∈ numbered masked ∧
      k ≤ before.length ∧ endsStatement x = true ∧
      ∀ y m, (y, m) ∈ numbered masked → k < m → m ≤ before.length → trim y = [] := by
  rw [Option.any_eq_true]
  constructor
  · rintro ⟨x, hx, hends⟩
    obtain ⟨-, above, below, rfl, hblank⟩ := lastFilled?_eq_some_iff.mp hx
    have hlines : lines masked = (above ++ [x]) ++ (below ++ after) := by simpa using h
    refine ⟨x, above.length + 1, mem_numbered_iff_append.mpr ⟨above, below ++ after, ?_, rfl⟩,
      by simp, hends, fun y m hm hlo hhi => hblank y ((mem_between_iff hlines).mpr ⟨m, hm, ?_⟩)⟩
    · simpa using h
    · simp only [List.length_append, List.length_cons, List.length_nil] at hhi ⊢
      omega
  · rintro ⟨x, k, hx, hk, hends, hblank⟩
    obtain ⟨above, rest, hsplit, rfl⟩ := mem_numbered_iff_append.mp hx
    have habove : above ++ [x] <+: before :=
      List.prefix_of_prefix_length_le ⟨rest, by simpa using hsplit.symm⟩ ⟨after, h.symm⟩
        (by simpa using hk)
    obtain ⟨below, rfl⟩ : ∃ below, before = above ++ x :: below := by
      obtain ⟨below, hbelow⟩ := habove
      exact ⟨below, by simpa using hbelow.symm⟩
    refine ⟨x, lastFilled?_eq_some_iff.mpr ⟨trim_ne_nil_of_endsStatement hends, above, below, rfl,
      fun y hy => ?_⟩, hends⟩
    have hlines : lines masked = (above ++ [x]) ++ (below ++ after) := by simpa using h
    obtain ⟨m, hm, hlo, hhi⟩ := (mem_between_iff hlines).mp hy
    simp only [List.length_append, List.length_cons, List.length_nil] at hlo hhi hblank
    exact hblank y m hm (by omega) (by omega)

/-- A declaration is reported exactly if the nearest line above it that is not blank ends a
statement. -/
theorem mem_lateDeclarations_iff : d ∈ lateDeclarations masked ↔
    ∃ line n, (line, n) ∈ numbered masked ∧ isDeclaration line = true ∧
      (∃ x k, (x, k) ∈ numbered masked ∧ k < n ∧ endsStatement x = true ∧
        ∀ y m, (y, m) ∈ numbered masked → k < m → m < n → trim y = []) ∧
      d = lateWarning n line := by
  simp only [lateDeclarations, mem_lateDeclarationsFrom_iff, Option.or_none]
  constructor
  · rintro ⟨before, line, after, hlines, hdecl, hends, rfl⟩
    rw [any_lastFilled?_iff hlines] at hends
    simp only [← Nat.lt_succ_iff] at hends
    refine ⟨line, before.length + 1, mem_numbered_iff_append.mpr ⟨before, after, hlines, rfl⟩,
      hdecl, hends, ?_⟩
    rw [Nat.add_comm]
  · rintro ⟨line, n, hline, hdecl, hends, rfl⟩
    obtain ⟨before, after, hlines, rfl⟩ := mem_numbered_iff_append.mp hline
    simp only [Nat.lt_succ_iff] at hends
    refine ⟨before, line, after, hlines, hdecl, (any_lastFilled?_iff hlines).mpr hends, ?_⟩
    rw [Nat.add_comm]

/-- No other check of the dialect gives this warning. -/
theorem lateWarning_mem_violations_iff {prototypes : Bool} :
    lateWarning n line ∈ violations code true prototypes ↔
      lateWarning n line ∈ lateDeclarations (mask code) := by
  have hkeyword : lateWarning n line ∉ cppKeywordUses (mask code) := by
    simp [cppKeywordUses, lateWarning, Diagnostic.warning, Diagnostic.error]
  have hprototype : lateWarning n line ∉ missingPrototypes (mask code) := by
    intro h
    obtain ⟨before, -, -, -, head, -, -, -, heq⟩ := mem_missingPrototypesFrom_iff.mp h
    have hfirst := congrArg (·.message.toList.head?) heq
    simp [lateWarning, prototypeWarning, Diagnostic.warning] at hfirst
  cases prototypes <;> simp [violations, hkeyword, hprototype]

theorem endsStatement_iff (h : '\x7d' ∉ x) : endsStatement x = true ↔ ClosesStatement x := by
  have hbrace : (trim x).getLast? ≠ some '\x7d' :=
    fun hlast => h (mem_of_mem_trim (List.mem_of_getLast? hlast))
  constructor
  · intro hends
    simp only [endsStatement, Bool.and_eq_true, Bool.or_eq_true, beq_iff_eq, hbrace, or_false,
      Bool.not_eq_true', bne_iff_ne] at hends
    exact ⟨hends.1.1, hends.2, hends.1.2⟩
  · intro hx
    simp [endsStatement, hx.semicolon, hx.noDirective, hx.noDeclaration]

/-- Where a statement stands above a declaration and no block ends in between, the declaration is
reported exactly if a statement, this one or a later one, has nothing but blank lines between it
and the declaration. -/
theorem late_declaration_reported_iff {statement : List Char} {i j : ℕ} (prototypes : Bool)
    (hstatement : (statement, i) ∈ numbered (mask code)) (hline : (line, j) ∈ numbered (mask code))
    (hij : i < j) (hcloses : ClosesStatement statement) (hdecl : isDeclaration line = true)
    (hblock : ∀ y m, (y, m) ∈ numbered (mask code) → i ≤ m → m < j → '\x7d' ∉ y) :
    lateWarning j line ∈ violations code true prototypes ↔
      ∃ x k, (x, k) ∈ numbered (mask code) ∧ i ≤ k ∧ k < j ∧ ClosesStatement x ∧
        ∀ y m, (y, m) ∈ numbered (mask code) → k < m → m < j → trim y = [] := by
  rw [lateWarning_mem_violations_iff, mem_lateDeclarations_iff]
  constructor
  · rintro ⟨line', n, -, -, ⟨x, k, hx, hk, hends, hblank⟩, heq⟩
    obtain rfl : j = n := congrArg (·.position.line) heq
    -- The statement at `i` is not blank, so that the search stops there at the latest.
    have hik : i ≤ k := by
      by_contra hlt
      have hends' := (endsStatement_iff (hblock _ i hstatement (Nat.le_refl i) hij)).mpr hcloses
      exact trim_ne_nil_of_endsStatement hends'
        (hblank statement i hstatement (Nat.lt_of_not_le hlt) hij)
    exact ⟨x, k, hx, hik, hk, (endsStatement_iff (hblock x k hx hik hk)).mp hends, hblank⟩
  · rintro ⟨x, k, hx, hik, hk, hx', hblank⟩
    exact ⟨line, j, hline, hdecl, ⟨x, k, hx, hk,
      (endsStatement_iff (hblock x k hx hik hk)).mpr hx', hblank⟩, rfl⟩

namespace Sample

/-- Two declarations below a statement, one after the other. -/
def twoLate : List Char :=
  "void f(void) \x7b\n    a++;\n\n    int b = 2;\n    int c = 3;\n\x7d".toList

def increment : List Char := "    a++;".toList

def declarationB : List Char := "    int b = 2;".toList

def declarationC : List Char := "    int c = 3;".toList

theorem closesStatement_increment : ClosesStatement increment where
  semicolon := by decide +kernel
  noDirective := by decide +kernel
  noDeclaration := by decide +kernel

theorem numbered_twoLate : numbered (mask twoLate) =
    [("void f(void) \x7b".toList, 1), (increment, 2), ([], 3), (declarationB, 4),
      (declarationC, 5), (['\x7d'], 6)] := by
  decide +kernel

theorem blank_between : ∀ y m, (y, m) ∈ numbered (mask twoLate) → 2 < m → m < 4 →
    trim y = [] := by
  intro y m hm hlo hhi
  obtain rfl : m = 3 := by omega
  simp only [numbered_twoLate, List.mem_cons, Prod.mk.injEq] at hm
  obtain rfl : y = [] := by simpa using hm
  rfl

theorem no_block_ends : ∀ y m, (y, m) ∈ numbered (mask twoLate) → 2 ≤ m → m < 6 →
    '\x7b' ∉ y ∧ '\x7d' ∉ y := by
  have hall : ∀ p ∈ numbered (mask twoLate), 2 ≤ p.2 → p.2 < 6 →
      '\x7b' ∉ p.1 ∧ '\x7d' ∉ p.1 := by
    rw [numbered_twoLate]
    decide +kernel
  exact fun y m hm => hall (y, m) hm

/-- The declaration right below the statement is reported. -/
theorem lateWarning_declarationB : (increment, 2) ∈ numbered (mask twoLate) ∧
    (declarationB, 4) ∈ numbered (mask twoLate) ∧ ClosesStatement increment ∧
    isDeclaration declarationB = true ∧
    lateWarning 4 declarationB ∈ violations twoLate true false := by
  have hstatement : (increment, 2) ∈ numbered (mask twoLate) := by simp [numbered_twoLate]
  have hline : (declarationB, 4) ∈ numbered (mask twoLate) := by simp [numbered_twoLate]
  have hdecl : isDeclaration declarationB = true := by decide +kernel
  refine ⟨hstatement, hline, closesStatement_increment, hdecl, ?_⟩
  refine (late_declaration_reported_iff false hstatement hline (by decide)
    closesStatement_increment hdecl fun y m hm hlo hhi =>
      (no_block_ends y m hm hlo (by omega)).2).mpr ?_
  exact ⟨increment, 2, hstatement, by decide, by decide, closesStatement_increment, blank_between⟩

/-- The next one has a declaration above it, and nothing on its line is reported. -/
theorem not_reported_of_late_declaration :
    ¬ ∀ (code statement line : List Char) (i j : ℕ) (prototypes : Bool),
      (statement, i) ∈ numbered (mask code) → (line, j) ∈ numbered (mask code) → i < j →
      ClosesStatement statement → isDeclaration line = true →
      (∀ y m, (y, m) ∈ numbered (mask code) → i ≤ m → m ≤ j → '\x7b' ∉ y ∧ '\x7d' ∉ y) →
      ∃ d ∈ violations code true prototypes, d.position.line = j := by
  intro h
  have hreport := h twoLate increment declarationC 2 5 false (by simp [numbered_twoLate])
    (by simp [numbered_twoLate]) (by decide) closesStatement_increment (by decide +kernel) ?_
  · have hnone : ¬ ∃ d ∈ violations twoLate true false, d.position.line = 5 := by decide +kernel
    exact hnone hreport
  · exact fun y m hm hlo hhi => no_block_ends y m hm hlo (by omega)

end Sample
end SnippetLint.CDialect
