import Mathlib.Data.List.Nodup
import SnippetLint.Proofs.Text.Offsets
import SnippetLint.Proofs.Text.Runs

/-! The words of a text said without a reader: whole runs of identifier characters that no digit
begins. Those of a line are the ones listed for it, and no line feed is in one, so that the words
of a text are those of its lines. -/
namespace SnippetLint.Text

variable {before run rest line : List Char}

/-- A word of the text that is put together from the three parts. -/
structure IsWord (before run rest : List Char) : Prop where
  ne_nil : run ≠ []
  all : ∀ c ∈ run, isIdentChar c = true
  first : ∀ c ∈ run.head?, c.isDigit = false
  left : ∀ c ∈ before.getLast?, isIdentChar c = false
  right : ∀ c ∈ rest.head?, isIdentChar c = false

/-- Where a run stands at the front, a word is that run or comes after it. -/
theorem IsWord.first_or_later {u word r : List Char} (h : IsWord (before ++ u) word r)
    (hs : run ++ rest = u ++ (word ++ r)) (hne : run ≠ [])
    (hall : ∀ c ∈ run, isIdentChar c = true) (hr : ∀ c ∈ rest.head?, isIdentChar c = false) :
    (u = [] ∧ word = run ∧ r = rest) ∨ ∃ v, u = run ++ v ∧ rest = v ++ (word ++ r) := by
  rcases List.append_eq_append_iff.mp hs with ⟨v, hu, hrest⟩ | ⟨v, hrun, hword⟩
  · exact Or.inr ⟨v, hu, hrest⟩
  · have hu : u = [] := by
      by_contra hne
      have hlast := List.getLast?_eq_some_getLast hne
      have hident := hall (u.getLast hne) (hrun ▸ List.mem_append_left v (List.getLast_mem hne))
      have hnot := h.left (u.getLast hne) (by rw [List.getLast?_append_of_ne_nil _ hne, hlast]; rfl)
      rw [hident] at hnot
      exact absurd hnot (by decide)
    subst hu
    have hrun' : word = run := by
      rw [← takeWhile_run h.all h.right, ← takeWhile_run hall hr, hs]
      rfl
    subst hrun'
    exact Or.inl ⟨rfl, rfl, (List.append_cancel_left hs).symm⟩

namespace Word

/-- The word is one of those in `text`, before which `before` stands. -/
def Stands (w : Word) (before text : List Char) : Prop :=
  ∃ u rest, text = u ++ (w.text.toList ++ rest) ∧ IsWord (before ++ u) w.text.toList rest ∧
    w.offset = byteLength (before ++ u) ∧ w.column = (before ++ u).length + 1

variable {w : Word}

theorem not_stands_nil (w : Word) (before : List Char) : ¬ w.Stands before [] := by
  rintro ⟨u, rest, htext, hword, -⟩
  exact hword.ne_nil (List.append_eq_nil_iff.mp (List.append_eq_nil_iff.mp htext.symm).2).1

theorem stands_append (u : List Char) (h : w.Stands (before ++ u) rest) :
    w.Stands before (u ++ rest) := by
  obtain ⟨v, r, htext, hword, ho, hc⟩ := h
  rw [List.append_assoc] at hword ho hc
  exact ⟨u ++ v, r, by rw [htext, List.append_assoc], hword, ho, hc⟩

theorem stands_cons_iff {c : Char} (hc : isIdentChar c = false) :
    w.Stands before (c :: rest) ↔ w.Stands (before ++ [c]) rest := by
  constructor
  · rintro ⟨u, r, htext, hword, ho, hcol⟩
    cases u with
    | nil =>
      obtain ⟨d, ds, hd⟩ := List.exists_cons_of_ne_nil hword.ne_nil
      rw [hd] at htext
      have hident := hword.all d (by rw [hd]; exact List.mem_cons_self)
      rw [← (List.cons.inj htext).1, hc] at hident
      exact absurd hident (by decide)
    | cons d u =>
      obtain ⟨rfl, hrest⟩ := List.cons.inj htext
      rw [List.append_cons] at hword ho hcol
      exact ⟨u, r, hrest, hword, ho, hcol⟩
  · exact stands_append [c]

/-- The words of a text that a run is in front of. -/
theorem stands_run_iff (hne : run ≠ []) (hall : ∀ c ∈ run, isIdentChar c = true)
    (hl : ∀ c ∈ before.getLast?, isIdentChar c = false)
    (hr : ∀ c ∈ rest.head?, isIdentChar c = false) :
    w.Stands before (run ++ rest) ↔
      ((∀ c ∈ run.head?, c.isDigit = false) ∧
        w = ⟨String.ofList run, byteLength before, before.length + 1⟩) ∨
      w.Stands (before ++ run) rest := by
  constructor
  · rintro ⟨u, r, htext, hword, ho, hc⟩
    rcases hword.first_or_later htext hne hall hr with ⟨rfl, hrun, rfl⟩ | ⟨v, rfl, hrest⟩
    · left
      refine ⟨hrun ▸ hword.first, ?_⟩
      rw [List.append_nil] at ho hc
      rw [← hrun, String.ofList_toList, ← ho, ← hc]
    · right
      rw [← List.append_assoc] at hword ho hc
      exact ⟨v, r, hrest, hword, ho, hc⟩
  · rintro (⟨hfirst, rfl⟩ | h)
    · refine ⟨[], rest, ?_, ?_, ?_, ?_⟩
      · rw [String.toList_ofList, List.nil_append]
      · rw [String.toList_ofList, List.append_nil]
        exact ⟨hne, hall, hfirst, hl, hr⟩
      · rw [List.append_nil]
      · rw [List.append_nil]
    · exact stands_append run h

theorem stands_ident_iff {c : Char} (hc : isIdentChar c = true)
    (hl : ∀ d ∈ before.getLast?, isIdentChar d = false) (cs : List Char) :
    w.Stands before (c :: cs) ↔
      (c.isDigit = false ∧ w = ⟨String.ofList (c :: cs.takeWhile isIdentChar), byteLength before,
        before.length + 1⟩) ∨
      w.Stands (before ++ c :: cs.takeWhile isIdentChar) (cs.dropWhile isIdentChar) := by
  have h := stands_run_iff (w := w) (List.cons_ne_nil _ _) (isIdentChar_of_mem_run hc cs) hl
    (head?_dropWhile isIdentChar cs)
  have hfirst : (∀ d ∈ (c :: cs.takeWhile isIdentChar).head?, d.isDigit = false) ↔
      c.isDigit = false := by simp
  rwa [List.cons_append, List.takeWhile_append_dropWhile, hfirst] at h

end Word

/-- Reading on where no run is cut in two. -/
theorem mem_wordsFrom_iff {w : Word} (before text : List Char)
    (h : (∀ c ∈ before.getLast?, isIdentChar c = false) ∨
      ∀ c ∈ text.head?, isIdentChar c = false) :
    w ∈ wordsFrom (byteLength before) (before.length + 1) text ↔ w.Stands before text := by
  generalize ho : byteLength before = offset
  generalize hn : before.length + 1 = column
  fun_induction wordsFrom offset column text generalizing before with
  | case1 => exact iff_of_false List.not_mem_nil (w.not_stands_nil before)
  | case2 offset column c cs hc run tail hd ih =>
    have hl := left_of_ident hc h
    have htail := ih (before ++ run) (Or.inr (head?_dropWhile isIdentChar cs))
      (by rw [byteLength_append_run hc, ho]) (by rw [List.length_append, ← hn]; omega)
    rw [Word.stands_ident_iff hc hl, htail]
    refine (or_iff_right ?_).symm
    rintro ⟨hfirst, -⟩
    rw [hd] at hfirst
    exact absurd hfirst (by decide)
  | case3 offset column c cs hc run tail hd ih =>
    have hl := left_of_ident hc h
    have htail := ih (before ++ run) (Or.inr (head?_dropWhile isIdentChar cs))
      (by rw [byteLength_append_run hc, ho]) (by rw [List.length_append, ← hn]; omega)
    rw [Bool.not_eq_true] at hd
    rw [Word.stands_ident_iff hc hl, List.mem_cons, htail, ho, hn]
    exact or_congr_left (and_iff_right hd).symm
  | case4 offset column c cs hc ih =>
    rw [Bool.not_eq_true] at hc
    have hb : byteLength (before ++ [c]) = offset + c.utf8Size := by
      rw [byteLength_append, ho]
      rfl
    have hl : (before ++ [c]).length + 1 = column + 1 := by
      rw [List.length_append, ← hn]
      rfl
    rw [Word.stands_cons_iff hc]
    refine ih (before ++ [c]) (Or.inl ?_) hb hl
    intro d hd
    rw [List.getLast?_concat] at hd
    rwa [← Option.some.inj hd]

theorem mem_words_iff {w : Word} : w ∈ words line ↔ w.Stands [] line := by
  rw [words_eq_wordsFrom]
  exact mem_wordsFrom_iff [] line (Or.inl fun _ h => absurd h (Option.not_mem_none _))

theorem pairwise_words (line : List Char) :
    (words line).Pairwise fun v w => v.column < w.column := by
  have hfound := (pairwise_findAll (fun _ => identifier?) line).filter fun found =>
    !(line.take found.1).getLast?.any Char.isDigit
  exact List.pairwise_map.mpr (hfound.imp Nat.succ_lt_succ)

theorem offset_of_mem_words {w : Word} (h : w ∈ words line) :
    w.offset = byteLength (line.take w.place) := by
  obtain ⟨⟨place, run⟩, -, rfl⟩ := List.mem_map.mp h
  rfl

/-- The words of a line are the whole runs in it that no digit begins, each once and from left to
right. What stands at the offset of a word is its text. -/
theorem words_are_whole_runs (line : List Char) :
    (∀ w, w ∈ words line ↔ ∃ before rest, line = before ++ (w.text.toList ++ rest) ∧
      IsWord before w.text.toList rest ∧ w.offset = byteLength before ∧
      w.column = before.length + 1) ∧
    (words line).Pairwise (fun v w => v.offset < w.offset ∧ v.column < w.column) ∧
    (words line).map (fun w => slice? w.offset (w.offset + byteLength w.text.toList) line) =
      (words line).map fun w => some w.text.toList := by
  have hmem : ∀ w, w ∈ words line ↔ ∃ before rest, line = before ++ (w.text.toList ++ rest) ∧
      IsWord before w.text.toList rest ∧ w.offset = byteLength before ∧
      w.column = before.length + 1 := fun w => mem_words_iff
  refine ⟨hmem, (pairwise_words line).imp_of_mem fun {v w} hv hw hvw => ⟨?_, hvw⟩, ?_⟩
  · have hv' := column_of_mem_words hv
    rw [offset_of_mem_words hv, offset_of_mem_words hw]
    apply byteLength_take_lt
    · rw [Word.place, Word.place]
      omega
    · rw [Word.place]
      omega
  · apply List.map_congr_left
    intro w hw
    obtain ⟨before, rest, hline, -, hoffset, -⟩ := (hmem w).mp hw
    rw [hoffset, ← byteLength_append, hline, ← List.append_assoc]
    exact slice?_eq_some before w.text.toList rest

/-- Of a list with no key twice, those with the key of a member are that member. -/
theorem filter_key_eq {α β : Type} [DecidableEq α] [DecidableEq β] {key : α → β} {xs : List α}
    (hn : (xs.map key).Nodup) {a : α} (ha : a ∈ xs) :
    xs.filter (fun x => key x == key a) = [a] := by
  have hkey : ∀ x ∈ xs, (key x == key a) = (x == a) := by
    intro x hx
    rw [Bool.eq_iff_iff, beq_iff_eq, beq_iff_eq]
    exact ⟨List.inj_on_of_nodup_map hn hx ha, congrArg key⟩
  rw [List.filter_congr hkey, List.filter_beq, List.count_eq_one_of_mem hn.of_map ha]
  rfl

theorem filter_words {w : Word} (h : w ∈ words line) :
    (words line).filter (·.column == w.column) = [w] :=
  filter_key_eq (List.pairwise_map.mpr ((pairwise_words line).imp Nat.ne_of_lt)) h

theorem filter_numbered {text : List Char} {n : ℕ} (h : (line, n) ∈ numbered text) :
    (numbered text).filter (·.2 == n) = [(line, n)] := by
  have hn : ((numbered text).map Prod.snd).Nodup := by
    rw [numbered, List.zipIdx_map_snd]
    exact List.nodup_range'
  exact filter_key_eq hn h

namespace Word

variable {w : Word} {u v : List Char}

theorem before?_eq (hc : w.column = u.length + 1) :
    w.before? (u ++ v) = u.getLast? := by
  have hplace : w.place = u.length := by rw [place, hc, Nat.add_sub_cancel]
  rw [before?, hplace]
  induction u using List.reverseRecOn with
  | nil => rfl
  | append_singleton cs c =>
    rw [List.getLast?_concat, List.length_append, List.length_singleton,
      if_neg (Nat.succ_ne_zero _), Nat.add_sub_cancel, List.append_assoc, List.drop_left]
    rfl

end Word

/-! ### Words of a text -/

theorem lines_run_append (h : '\n' ∉ run) (text : List Char) :
    lines (run ++ text) = (lines text).modifyHead (run ++ ·) := by
  obtain ⟨x, xs, hx⟩ := List.exists_cons_of_ne_nil (lines_ne_nil text)
  rw [hx, List.modifyHead_cons]
  induction run with
  | nil => rw [List.nil_append, List.nil_append, hx]
  | cons c cs ih =>
    rw [List.mem_cons, not_or] at h
    rw [List.cons_append, lines_cons, if_neg (Ne.symm h.1), ih h.2, List.modifyHead_cons,
      List.cons_append]

theorem isIdentChar_lineFeed : isIdentChar '\n' = false := by decide

theorem left_lastLine_iff (a : List Char) :
    (∀ c ∈ (lastLine a).getLast?, isIdentChar c = false) ↔
      ∀ c ∈ a.getLast?, isIdentChar c = false := by
  induction a using List.reverseRecOn with
  | nil => rfl
  | append_singleton cs c =>
    by_cases hc : c = '\n'
    · subst hc
      rw [lastLine_append_lineFeed, List.getLast?_concat]
      simp [isIdentChar_lineFeed]
    · rw [lastLine_append_of_ne hc, List.getLast?_concat, List.getLast?_concat]

theorem right_line_iff {b x : List Char} {xs : List (List Char)} (h : lines b = x :: xs) :
    (∀ c ∈ x.head?, isIdentChar c = false) ↔ ∀ c ∈ b.head?, isIdentChar c = false := by
  rw [← takeWhile_of_lines h]
  cases b with
  | nil => rfl
  | cons c cs =>
    by_cases hc : c = '\n'
    · subst hc
      simp [isIdentChar_lineFeed]
    · rw [List.takeWhile_cons, if_pos (bne_iff_ne.mpr hc)]
      rfl

theorem IsWord.lineFeed_not_mem {a b : List Char} (h : IsWord a run b) : '\n' ∉ run := by
  intro hn
  exact absurd (h.all '\n' hn) (by decide)

/-- The line that a word of a text is on. -/
theorem IsWord.exists_line {a b : List Char} (h : IsWord a run b) :
    ∃ v, (lastLine a ++ (run ++ v), (lines a).length) ∈ numbered (a ++ (run ++ b)) ∧
      IsWord (lastLine a) run v := by
  obtain ⟨v, vs, hv⟩ := List.exists_cons_of_ne_nil (lines_ne_nil b)
  refine ⟨v, ?_, h.ne_nil, h.all, h.first, (left_lastLine_iff a).mpr h.left,
    (right_line_iff hv).mpr h.right⟩
  have hpos := length_lines_pos a
  have hlines : lines (a ++ (run ++ b)) =
      (lines a).dropLast ++ (lastLine a ++ (run ++ v)) :: vs := by
    rw [lines_append, lines_run_append h.lineFeed_not_mem, hv, List.modifyHead_cons,
      List.modifyHead_cons]
  refine mem_numbered_iff_append.mpr ⟨_, vs, hlines, ?_⟩
  rw [List.length_dropLast, Nat.sub_add_cancel hpos]

/-- Where in the text a word of one of its lines is. -/
theorem IsWord.exists_append {u v text : List Char} {n : ℕ} (h : IsWord u run v)
    (hline : (u ++ (run ++ v), n) ∈ numbered text) :
    ∃ a b, text = a ++ (run ++ b) ∧ Position.after a = ⟨n, u.length + 1⟩ ∧ IsWord a run b := by
  obtain ⟨xs, ys, hlines, rfl⟩ := mem_numbered_iff_append.mp hline
  obtain ⟨a, rest, rfl, ha, hrest⟩ := Position.exists_append_of_lines hlines
  have hlast : lastLine a = u := by simp [lastLine, ha]
  -- the run is the beginning of what follows the place
  obtain ⟨b, rfl⟩ : run <+: rest := by
    have hbegin := List.takeWhile_prefix (l := rest) (· != '\n')
    rw [takeWhile_of_lines hrest] at hbegin
    exact (List.prefix_append run v).trans hbegin
  rw [lines_run_append h.lineFeed_not_mem] at hrest
  obtain ⟨y, zs, hy⟩ := List.exists_cons_of_ne_nil (lines_ne_nil b)
  rw [hy, List.modifyHead_cons] at hrest
  obtain rfl : y = v := List.append_cancel_left (List.cons.inj hrest).1
  refine ⟨a, b, rfl, ?_, h.ne_nil, h.all, h.first, ?_, (right_line_iff hy).mp h.right⟩
  · rw [Position.after_eq, hlast, ha, List.length_append]
    rfl
  · rw [← left_lastLine_iff, hlast]
    exact h.left

end SnippetLint.Text
