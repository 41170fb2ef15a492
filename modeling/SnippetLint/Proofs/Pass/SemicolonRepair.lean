import SnippetLint.Proofs.Pass.RealPosition
import SnippetLint.Proofs.Source.Insertion
import SnippetLint.Proofs.Text.Offsets
import SnippetLint.Proofs.Text.Trimming

/-! A semicolon that C or C++ misses, put in where it is missed, settles that report and no other.
The place is one between two lexemes, so that the rest of the text is read as before, and the line
still begins as it did, so that no line before it sees another beginning. -/
namespace SnippetLint.Semicolon
open Text Source

section
variable {code raw : List Char} {xs ys : List (List Char)}
  (hls : lines (mask code) = xs ++ raw :: ys) (hne : trim raw ≠ [])
include hls hne

/-- The masked text is cut at the place where the line wants its semicolon. -/
theorem exists_append_of_place :
    ∃ a b x blanks, mask code = a ++ b ∧ a.getLast? = some x ∧ isBlank x = false ∧
      (∀ c ∈ b.takeWhile (· != '\n'), isBlank c = true) ∧
      .after a = place raw (xs.length + 1) ∧ (∀ c ∈ blanks, isBlank c = true) ∧
      ∀ c, c ≠ '\n' → lines (a ++ c :: b) = xs ++ (trimEnd raw ++ c :: blanks) :: ys := by
  obtain ⟨blanks, hraw, hblanks⟩ := exists_trimEnd_append raw
  have hcut : lines (mask code) = xs ++ (trimEnd raw ++ blanks) :: ys := by
    rw [← hraw, hls]
  obtain ⟨a, b, hm, ha, hb⟩ := Position.exists_append_of_lines hcut
  have hlast : lastLine a = trimEnd raw := by simp [lastLine, ha]
  obtain ⟨first, htrim, -⟩ := exists_trimEnd_eq hne
  have hx : (trimEnd raw).getLast? = some ((trim raw).getLast hne) := by
    rw [htrim, List.getLast?_append_of_ne_nil _ hne, List.getLast?_eq_some_getLast hne]
  refine ⟨a, b, _, blanks, hm, ?_, isBlank_of_getLast?_trimEnd hx, ?_, ?_, hblanks, ?_⟩
  · rw [← hx, ← hlast, getLast?_lastLine]
    rw [hlast]
    intro hnil
    rw [hnil] at hx
    exact absurd hx (by simp)
  · rw [takeWhile_of_lines hb]
    exact hblanks
  · rw [Position.after_eq, hlast, ha, List.length_append]
    rfl
  · intro c hc
    rw [lines_append_cons hb hc, hlast, ha, List.dropLast_concat]

/-- The line then ends in the semicolon. -/
theorem exists_line_insertAt (hp : ¬ InOpenLiteral code (place raw (xs.length + 1))) :
    ∃ raw', lines (mask (insertAt ';' code (place raw (xs.length + 1)))) = xs ++ raw' :: ys ∧
      trim raw' = trim raw ++ [';'] := by
  obtain ⟨a, b, x, blanks, hm, hx, hsolid, hrest, hplace, hblanks, hlines⟩ :=
    exists_append_of_place hls hne
  refine ⟨trimEnd raw ++ ';' :: blanks, ?_, trim_append_cons hne (by decide) hblanks⟩
  rw [← hplace] at hp ⊢
  rw [mask_insertAt_of_not_inOpenLiteral hm hx hsolid hrest hp, hlines ';' (by decide)]

/-- The semicolon is lost in the literal. -/
theorem exists_line_insertAt_of_inOpenLiteral
    (hp : InOpenLiteral code (place raw (xs.length + 1))) :
    ∃ raw', lines (mask (insertAt ';' code (place raw (xs.length + 1)))) = xs ++ raw' :: ys ∧
      trimEnd raw' = trimEnd raw ∧ trim raw' = trim raw := by
  obtain ⟨a, b, x, blanks, hm, hx, hsolid, hrest, hplace, hblanks, hlines⟩ :=
    exists_append_of_place hls hne
  have hspace : ∀ d ∈ ' ' :: blanks, isBlank d = true := by
    intro d hd
    rcases List.mem_cons.mp hd with rfl | hd
    · rfl
    · exact hblanks d hd
  refine ⟨trimEnd raw ++ ' ' :: blanks, ?_,
    trimEnd_append_blanks hspace fun _ => isBlank_of_getLast?_trimEnd,
    trim_append_blanks hne hspace⟩
  rw [← hplace] at hp ⊢
  rw [mask_insertAt_of_inOpenLiteral hm hx hsolid hrest hp, hlines ' ' (by decide)]

end

theorem endsWith_append_singleton (line : List Char) (c : Char) :
    endsWith (line ++ [c]) c = true := by
  rw [endsWith, List.getLast?_concat]
  exact beq_self_eq_true (some c)

theorem wanted_append_semicolon (line : List Char) : wanted (line ++ [';']) = false := by
  rw [wanted, endsWith_append_singleton]
  simp

theorem ne_nil_of_wanted {line : List Char} (h : wanted line = true) : line ≠ [] := by
  rintro rfl
  exact absurd h (by decide)

theorem missingInBlockFrom_cons (n : ℕ) (raw : List Char) (rest : List (List Char)) :
    missingInBlockFrom n (raw :: rest) =
      if (wanted (trim raw) && !blockFollows rest) = true then
        .error (place raw n) message :: missingInBlockFrom (n + 1) rest
      else missingInBlockFrom (n + 1) rest := rfl

/-- The line that a report is about. -/
theorem exists_line_of_mem {n : ℕ} {ls : List (List Char)} {d : Diagnostic}
    (h : d ∈ missingInBlockFrom n ls) :
    ∃ xs raw ys, ls = xs ++ raw :: ys ∧ d = .error (place raw (n + xs.length)) message ∧
      wanted (trim raw) = true ∧ blockFollows ys = false := by
  induction ls generalizing n with
  | nil => exact absurd h List.not_mem_nil
  | cons raw ls ih =>
    have hrest : d ∈ missingInBlockFrom (n + 1) ls →
        ∃ xs raw' ys, raw :: ls = xs ++ raw' :: ys ∧
          d = .error (place raw' (n + xs.length)) message ∧
          wanted (trim raw') = true ∧ blockFollows ys = false := by
      intro hd
      obtain ⟨xs, raw', ys, rfl, hd, hw, hb⟩ := ih hd
      refine ⟨raw :: xs, raw', ys, rfl, ?_, hw, hb⟩
      rw [hd, List.length_cons, Nat.add_right_comm, Nat.add_assoc]
    rw [missingInBlockFrom_cons] at h
    split_ifs at h with hwanted
    · rcases List.mem_cons.mp h with hd | hd
      · rw [Bool.and_eq_true, Bool.not_eq_true'] at hwanted
        exact ⟨[], raw, ls, rfl, hd, hwanted⟩
      · exact hrest hd
    · exact hrest h

theorem blockFollows_cons (raw : List Char) (rest : List (List Char)) :
    blockFollows (raw :: rest) =
      if (trim raw).isEmpty = true then blockFollows rest
      else (trim raw).head? == some '\x7b' := by
  rw [blockFollows, List.map_cons, List.find?_cons]
  cases (trim raw).isEmpty <;> rfl

theorem blockFollows_congr {raw raw' : List Char} (h : trim raw ≠ []) (h' : trim raw' ≠ [])
    (hhead : (trim raw').head? = (trim raw).head?) (xs ys : List (List Char)) :
    blockFollows (xs ++ raw' :: ys) = blockFollows (xs ++ raw :: ys) := by
  induction xs with
  | nil =>
    rw [List.nil_append, List.nil_append, blockFollows_cons, blockFollows_cons,
      if_neg (by rwa [List.isEmpty_iff]), if_neg (by rwa [List.isEmpty_iff]), hhead]
  | cons x xs ih =>
    rw [List.cons_append, List.cons_append, blockFollows_cons, blockFollows_cons, ih]

/-- The line that a report is about, once it ends in a semicolon. -/
theorem missingInBlockFrom_settle {raw raw' : List Char} (hw : wanted (trim raw) = true)
    (hraw : trim raw' = trim raw ++ [';']) {ys : List (List Char)} (hb : blockFollows ys = false)
    (n : ℕ) (xs : List (List Char)) :
    missingInBlockFrom n (xs ++ raw' :: ys) =
      (missingInBlockFrom n (xs ++ raw :: ys)).erase
        (.error (place raw (n + xs.length)) message) := by
  induction xs generalizing n with
  | nil =>
    have hsettled : wanted (trim raw') = false := by rw [hraw, wanted_append_semicolon]
    rw [List.nil_append, List.nil_append, missingInBlockFrom_cons, missingInBlockFrom_cons, hw, hb,
      hsettled, if_neg (by decide), if_pos (by decide)]
    exact (List.erase_cons_head _ _).symm
  | cons x xs ih =>
    have hne := ne_nil_of_wanted hw
    have hfollows : blockFollows (xs ++ raw' :: ys) = blockFollows (xs ++ raw :: ys) := by
      apply blockFollows_congr hne
      · rw [hraw]
        exact List.append_ne_nil_of_right_ne_nil _ (List.cons_ne_nil _ _)
      · rw [hraw, List.head?_append_of_ne_nil _ hne]
    have hnumber : n + (x :: xs).length = n + 1 + xs.length := by rw [List.length_cons]; omega
    rw [List.cons_append, List.cons_append, missingInBlockFrom_cons, missingInBlockFrom_cons, ih,
      hfollows, hnumber]
    split_ifs
    · rw [List.erase_cons_tail]
      -- the report of an earlier line is another one
      intro heq
      have hline := congrArg (·.position.line) (eq_of_beq heq)
      have : n = n + 1 + xs.length := hline
      omega
    · rfl

theorem missingInBlock_insertAt {code : List Char} (hk : '`' ∉ code) {d : Diagnostic}
    (hd : d ∈ missingInBlock code) :
    missingInBlock (insertAt ';' code d.position) = (missingInBlock code).erase d := by
  obtain ⟨xs, raw, ys, hls, rfl, hw, hb⟩ := exists_line_of_mem hd
  obtain ⟨raw', hlines, htrim⟩ :=
    exists_line_insertAt hls (ne_nil_of_wanted hw) (not_inOpenLiteral hk _)
  have hnumber : 1 + xs.length = xs.length + 1 := Nat.add_comm 1 xs.length
  show missingInBlock (insertAt ';' code (place raw (1 + xs.length))) = _
  rw [hnumber, missingInBlock, hlines, missingInBlock, hls, ← hnumber]
  exact missingInBlockFrom_settle hw htrim hb 1 xs

/-- The text with a semicolon at the place of each of the reports, one after the other. -/
def repaired (ds : List Diagnostic) (code : List Char) : List Char :=
  ds.foldl (fun text d => insertAt ';' text d.position) code

theorem missingInBlock_repaired {code : List Char} (hk : '`' ∉ code) {ds : List Diagnostic}
    (h : ds.Perm (missingInBlock code)) : missingInBlock (repaired ds code) = [] := by
  induction ds generalizing code with
  | nil => exact List.nil_perm.mp h
  | cons d ds ih =>
    obtain ⟨hd, hrest⟩ := List.cons_perm_iff_perm_erase.mp h
    rw [← missingInBlock_insertAt hk hd] at hrest
    have hreal := allReal_missingInBlock code d hd
    exact ih (not_mem_insertAt (by decide) (by decide) hk hreal) hrest

/-- In a text without a backtick, the semicolon at the place of a report takes that report away and
leaves every other one as it is. So all of them, in any order, leave nothing to report. -/
theorem semicolon_settles_its_report_alone {code : List Char} (hk : '`' ∉ code) :
    (∀ d ∈ missingInBlock code,
      missingInBlock (insertAt ';' code d.position) = (missingInBlock code).erase d) ∧
    ∀ ds : List Diagnostic, ds.Perm (missingInBlock code) →
      missingInBlock (repaired ds code) = [] :=
  ⟨fun _ hd => missingInBlock_insertAt hk hd, fun _ h => missingInBlock_repaired hk h⟩

theorem settled_declaration :
    '`' ∉ "int x = 5 // c\ny = 2".toList ∧
    Diagnostic.error ⟨1, 10⟩ message ∈ missingInBlock "int x = 5 // c\ny = 2".toList ∧
    missingInBlock (insertAt ';' "int x = 5 // c\ny = 2".toList ⟨1, 10⟩) =
      [.error ⟨2, 6⟩ message] ∧
    missingInBlock "int x = 5; // c\ny = 2;".toList = [] := by
  have hk : '`' ∉ "int x = 5 // c\ny = 2".toList := by decide
  have hlist : missingInBlock "int x = 5 // c\ny = 2".toList =
      [.error ⟨1, 10⟩ message, .error ⟨2, 6⟩ message] := by decide +kernel
  have h := semicolon_settles_its_report_alone hk
  rw [hlist] at h
  have hall := h.2 _ (List.Perm.refl _)
  have htext : repaired [.error ⟨1, 10⟩ message, .error ⟨2, 6⟩ message]
      "int x = 5 // c\ny = 2".toList = "int x = 5; // c\ny = 2;".toList := by decide +kernel
  rw [htext] at hall
  refine ⟨hk, ?_, ?_, hall⟩
  · rw [hlist]
    exact List.mem_cons_self
  · exact h.1 (.error ⟨1, 10⟩ message) List.mem_cons_self

end SnippetLint.Semicolon
