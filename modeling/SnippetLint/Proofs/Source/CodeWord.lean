import SnippetLint.Proofs.Source.LineComment
import SnippetLint.Proofs.Text.WordRun

/-! The words of a code that no comment and no literal has a part of. They are the words of the
masked text, at the same places: nothing that masking takes away was one of them, and the spaces
that it leaves make no word of what was a part of one. -/
namespace SnippetLint.Source
open Text

/-- The word stands at the position, and each of the comments and literals ends before it or
starts after it. -/
def IsCodeWord (code : List Char) (word : String) (p : Position) : Prop :=
  ∃ before rest ts, code = before ++ (word.toList ++ rest) ∧ Position.after before = p ∧
    IsWord before word.toList rest ∧ Tokenised code 0 ts ∧
    ∀ t ∈ ts, t.stop ≤ before.length ∨ before.length + word.length ≤ t.start

variable {code a b run rest : List Char} {t : Token}

/-- The characters of a token, and of the text after it. -/
theorem Token.Stands.exists_getElem? (h : t.Stands code) :
    ∃ word rest, t.stop = t.start + word.length ∧ t.kind.Spells word rest ∧
      ∀ i, code[t.start + i]? = (word ++ rest)[i]? := by
  obtain ⟨word, rest, hdrop, hstop, hs⟩ := h
  refine ⟨word, rest, hstop, hs, fun i => ?_⟩
  rw [← hdrop, List.getElem?_drop]

theorem isIdentChar_of_quote {quote : Char} (h : quote ∈ ['"', '\'', '`']) :
    isIdentChar quote = false := by
  simp only [List.mem_cons, List.not_mem_nil, or_false] at h
  rcases h with rfl | rfl | rfl <;> decide

/-- Only the quotes of a literal are not blanked in a token, and they are in no word. -/
theorem Token.Stands.blanks_of_isIdentChar (h : t.Stands code) {place : ℕ} (hs : t.start ≤ place)
    (hl : place < t.stop) {c : Char} (hc : code[place]? = some c) (hi : isIdentChar c = true) :
    t.Blanks place := by
  obtain ⟨word, rest, hstop, hspells, hget⟩ := h.exists_getElem?
  obtain ⟨i, rfl⟩ := Nat.exists_eq_add_of_le hs
  have hlt : i < word.length := by omega
  rw [hget, List.getElem?_append_left hlt] at hc
  unfold Token.Blanks
  cases hk : t.kind with
  | lineComment => exact ⟨hs, hl⟩
  | blockComment => exact ⟨hs, hl⟩
  | literal =>
    rw [hk] at hspells
    obtain ⟨quote, hquote, body, rfl, -⟩ := hspells
    have hne : c ≠ quote := by
      rintro rfl
      rw [isIdentChar_of_quote hquote] at hi
      exact absurd hi (by decide)
    simp only [List.length_cons, List.length_append, List.length_nil] at hlt hstop
    rcases i with _ | i
    · exact absurd (Option.some.inj hc).symm hne
    · have hi' : i ≠ body.length := by
        rintro rfl
        rw [List.getElem?_cons_succ, List.getElem?_append_right (Nat.le_refl _), Nat.sub_self] at hc
        exact hne (Option.some.inj hc).symm
      dsimp only
      omega

theorem Token.Stands.isIdentChar_start (h : t.Stands code) {c : Char}
    (hc : code[t.start]? = some c) : isIdentChar c = false := by
  obtain ⟨word, rest, -, hspells, hget⟩ := h.exists_getElem?
  rw [← Nat.add_zero t.start, hget] at hc
  cases hk : t.kind with
  | lineComment =>
    rw [hk] at hspells
    obtain ⟨body, rfl, -⟩ := hspells
    rw [← Option.some.inj hc]
    decide
  | blockComment =>
    rw [hk] at hspells
    obtain ⟨body, rfl, -⟩ := hspells
    rw [← Option.some.inj hc]
    decide
  | literal =>
    rw [hk] at hspells
    obtain ⟨quote, hquote, body, rfl, -⟩ := hspells
    rw [← Option.some.inj hc]
    exact isIdentChar_of_quote hquote

/-- What blanks its last character is a comment. After one that ends in a letter the line ends. -/
theorem Token.Stands.isIdentChar_stop (h : t.Stands code) {place : ℕ} (hb : t.Blanks place)
    (hlast : place + 1 = t.stop) {c : Char} (hc : code[place]? = some c)
    (hi : isIdentChar c = true) {d : Char} (hd : code[t.stop]? = some d) :
    isIdentChar d = false := by
  obtain ⟨word, rest, hstop, hspells, hget⟩ := h.exists_getElem?
  unfold Token.Blanks at hb
  cases hk : t.kind with
  | lineComment =>
    rw [hk] at hspells
    obtain ⟨body, -, -, hrest⟩ := hspells
    rw [hstop, hget, List.getElem?_append_right (Nat.le_refl _), Nat.sub_self] at hd
    rcases hrest with rfl | hrest
    · exact absurd hd (by simp)
    · rw [List.head?_eq_getElem?, hd] at hrest
      rw [Option.some.inj hrest]
      decide
  | blockComment =>
    rw [hk] at hspells
    obtain ⟨body, rfl, -⟩ := hspells
    have hplace : place = t.start + (body.length + 3) := by
      simp only [List.length_cons, List.length_append, List.length_nil] at hstop
      omega
    have hslash : c = '/' := by
      rw [hplace, hget] at hc
      simpa using hc.symm
    rw [hslash] at hi
    exact absurd hi (by decide)
  | literal =>
    rw [hk] at hb
    exact absurd hb.2 (by omega)

theorem isIdentChar_shown {ts : List Token} {place : ℕ} {c : Char} (h : isIdentChar c = false) :
    isIdentChar (shown ts place c) = false := by
  unfold shown
  split_ifs
  · decide
  · exact h

/-- A word apart from the tokens is a word of the masked text. -/
theorem isWord_mask (hw : IsWord a run b)
    (hapart : ∀ t ∈ tokens (a ++ (run ++ b)), t.stop ≤ a.length ∨ a.length + run.length ≤ t.start) :
    ∃ A B, mask (a ++ (run ++ b)) = A ++ (run ++ B) ∧ A.length = a.length ∧ IsWord A run B := by
  set ts := tokens (a ++ (run ++ b))
  have hrun : (run.mapIdx fun i => shown ts (i + a.length)) = run := by
    apply List.ext_getElem
    · rw [List.length_mapIdx]
    · intro i hi hj
      rw [List.getElem_mapIdx]
      unfold shown
      rw [if_neg]
      rintro ⟨-, t, ht, hb⟩
      have hrange := hb.mem_range
      have := hapart t ht
      omega
  refine ⟨a.mapIdx (shown ts), b.mapIdx fun i => shown ts (i + run.length + a.length), ?_,
    List.length_mapIdx, hw.ne_nil, hw.all, hw.first, ?_, ?_⟩
  · rw [mask_eq, List.mapIdx_append, List.mapIdx_append, hrun]
  · intro c hc
    rw [List.getLast?_mapIdx] at hc
    obtain ⟨d, hd, rfl⟩ := Option.map_eq_some_iff.mp hc
    exact isIdentChar_shown (hw.left d hd)
  · intro c hc
    rw [List.head?_mapIdx] at hc
    obtain ⟨d, hd, rfl⟩ := Option.map_eq_some_iff.mp hc
    exact isIdentChar_shown (hw.right d hd)

theorem exists_blanks_of_shown_ne {ts : List Token} {place : ℕ} {c : Char}
    (h : shown ts place c ≠ c) : ∃ t ∈ ts, t.Blanks place := by
  unfold shown at h
  split_ifs at h with hb
  · exact hb.2
  · exact absurd rfl h

theorem shown_eq_of_isIdentChar {ts : List Token} {place : ℕ} {c : Char}
    (h : isIdentChar (shown ts place c) = true) :
    shown ts place c = c ∧ ∀ t ∈ ts, ¬ t.Blanks place := by
  unfold shown at h ⊢
  split_ifs at h ⊢ with hb
  · exact absurd h (by decide)
  · refine ⟨rfl, fun t ht hplace => hb ⟨?_, t, ht, hplace⟩⟩
    rintro rfl
    exact absurd h (by decide)

/-- A token blanks a part of any run that it is not apart from. -/
theorem apart_of_not_blanks (hcode : code = a ++ (run ++ b)) (hne : run ≠ [])
    (hall : ∀ c ∈ run, isIdentChar c = true)
    (hclear : ∀ i < run.length, ¬ t.Blanks (i + a.length)) (ht : t.Stands code) :
    t.stop ≤ a.length ∨ a.length + run.length ≤ t.start := by
  by_contra hover
  rw [not_or, Nat.not_le, Nat.not_le] at hover
  obtain ⟨hstop, hstart⟩ := hover
  have hlt := ht.start_lt_stop
  have hpos := List.length_pos_iff.mpr hne
  obtain ⟨i, hi, hs, hl⟩ : ∃ i < run.length, t.start ≤ i + a.length ∧ i + a.length < t.stop := by
    rcases Nat.le_total t.start a.length with h | h
    · exact ⟨0, hpos, by omega, by omega⟩
    · exact ⟨t.start - a.length, by omega, by omega, by omega⟩
  have hget : code[i + a.length]? = some run[i] := by
    rw [hcode, List.getElem?_append_right (Nat.le_add_left _ _), Nat.add_sub_cancel,
      List.getElem?_append_left hi, List.getElem?_eq_getElem hi]
  exact hclear i hi (ht.blanks_of_isIdentChar hs hl hget (hall _ (List.getElem_mem hi)))

/-- A word of the masked text is a word of the code, apart from its tokens. -/
theorem isWord_of_mask {A B : List Char} (hm : mask code = A ++ (run ++ B)) (hw : IsWord A run B) :
    ∃ a b, code = a ++ (run ++ b) ∧ a.length = A.length ∧ IsWord a run b ∧
      ∀ t ∈ tokens code, t.stop ≤ a.length ∨ a.length + run.length ≤ t.start := by
  have hstands := (tokenised_tokens code).stands
  rw [mask_eq, List.mapIdx_eq_append_iff] at hm
  generalize tokens code = ts at hm hstands ⊢
  obtain ⟨a, tail, hcode, rfl, hm⟩ := hm
  obtain ⟨r, b, rfl, hr, rfl⟩ := List.mapIdx_eq_append_iff.mp hm
  -- nothing of the run is blanked
  have hshown : ∀ i (h : i < r.length), shown ts (i + a.length) r[i] = r[i] ∧
      ∀ t ∈ ts, ¬ t.Blanks (i + a.length) := by
    intro i h
    apply shown_eq_of_isIdentChar
    apply hw.all
    rw [← hr, List.mem_mapIdx]
    exact ⟨i, h, rfl⟩
  obtain rfl : r = run := by
    rw [← hr]
    apply List.ext_getElem
    · rw [List.length_mapIdx]
    · intro i hi hj
      rw [List.getElem_mapIdx, (hshown i hi).1]
  have hapart : ∀ t ∈ ts, t.stop ≤ a.length ∨ a.length + r.length ≤ t.start := fun t ht =>
    apart_of_not_blanks hcode hw.ne_nil hw.all (fun i hi => (hshown i hi).2 t ht) (hstands t ht).2
  have hpos := List.length_pos_iff.mpr hw.ne_nil
  refine ⟨a, b, hcode, List.length_mapIdx.symm, ⟨hw.ne_nil, hw.all, hw.first, ?_, ?_⟩, hapart⟩
  · intro c hc
    have hleft := hw.left (shown ts (a.length - 1) c) (by rw [List.getLast?_mapIdx, hc]; rfl)
    by_cases heq : shown ts (a.length - 1) c = c
    · rwa [heq] at hleft
    -- the token that blanks the character ends right before the run
    obtain ⟨t, ht, hb⟩ := exists_blanks_of_shown_ne heq
    have hlen : 0 < a.length := by
      rw [List.length_pos_iff]
      rintro rfl
      exact absurd hc (by simp)
    have hrange := hb.mem_range
    have hstop : a.length - 1 + 1 = t.stop := by
      have := hapart t ht
      omega
    have hget : code[a.length - 1]? = some c := by
      rw [hcode, List.getElem?_append_left (by omega), ← List.getLast?_eq_getElem?]
      exact hc
    have hnext : code[t.stop]? = some r[0] := by
      rw [hcode, ← hstop, Nat.sub_add_cancel hlen, List.getElem?_append_right (Nat.le_refl _),
        Nat.sub_self, List.getElem?_append_left hpos, List.getElem?_eq_getElem hpos]
    have hfirst := hw.all r[0] (List.getElem_mem hpos)
    by_contra hident
    rw [Bool.not_eq_false] at hident
    rw [(hstands t ht).2.isIdentChar_stop hb hstop hget hident hnext] at hfirst
    exact absurd hfirst (by decide)
  · intro c hc
    have hright := hw.right (shown ts (0 + r.length + a.length) c)
      (by rw [List.head?_mapIdx, hc]; rfl)
    by_cases heq : shown ts (0 + r.length + a.length) c = c
    · rwa [heq] at hright
    -- the token that blanks the character starts right after the run
    obtain ⟨t, ht, hb⟩ := exists_blanks_of_shown_ne heq
    have hrange := hb.mem_range
    have hstart : t.start = a.length + r.length := by
      have := hapart t ht
      omega
    apply (hstands t ht).2.isIdentChar_start
    rw [hstart, hcode, ← List.append_assoc, ← List.length_append,
      List.getElem?_append_right (Nat.le_refl _), Nat.sub_self, ← List.head?_eq_getElem?]
    exact hc

/-- The words of the code are those listed for the lines of the masked text. -/
theorem isCodeWord_iff {word : String} {p : Position} :
    IsCodeWord code word p ↔ ∃ line n w, (line, n) ∈ numbered (mask code) ∧ w ∈ words line ∧
      word = w.text ∧ p = ⟨n, w.column⟩ := by
  constructor
  · rintro ⟨a, b, ts, rfl, rfl, hw, hts, hapart⟩
    rw [← hts.unique (tokenised_tokens _), ← String.length_toList] at hapart
    obtain ⟨A, B, hm, hlength, hw'⟩ := isWord_mask hw hapart
    have hafter : Position.after A = Position.after a := by
      have h := after_take_mask (a ++ (word.toList ++ b)) a.length
      rwa [hm, ← hlength, List.take_left, hlength, List.take_left] at h
    obtain ⟨v, hline, hv⟩ := hw'.exists_line
    rw [← hafter, Position.after_eq, hm]
    exact ⟨_, _, ⟨word, byteLength (lastLine A), (lastLine A).length + 1⟩, hline,
      mem_words_iff.mpr ⟨lastLine A, v, rfl, hv, rfl, rfl⟩, rfl, rfl⟩
  · rintro ⟨line, n, w, hline, hw, rfl, rfl⟩
    obtain ⟨u, v, rfl, hword, -, hc⟩ := mem_words_iff.mp hw
    rw [List.nil_append] at hword hc
    obtain ⟨A, B, hm, hafter, hword⟩ := hword.exists_append hline
    obtain ⟨a, b, hcode, hlength, hword, hapart⟩ := isWord_of_mask hm hword
    have hp : Position.after a = ⟨n, w.column⟩ := by
      have h := after_take_mask code A.length
      rw [hm, List.take_left, hcode, ← hlength, List.take_left, hafter, ← hc] at h
      exact h.symm
    rw [String.length_toList] at hapart
    exact ⟨a, b, tokens code, hcode, hp, hword, tokenised_tokens code, hapart⟩

/-- The word on its line of the code. -/
theorem IsCodeWord.exists_line {word : String} {p : Position} (h : IsCodeWord code word p) :
    ∃ u v, Position.lineText code p.line = u ++ (word.toList ++ v) ∧ p.column = u.length + 1 ∧
      IsWord u word.toList v := by
  obtain ⟨a, b, ts, rfl, rfl, hw, -, -⟩ := h
  obtain ⟨v, hline, hv⟩ := hw.exists_line
  obtain ⟨hn, hget⟩ := mem_numbered.mp hline
  rw [Position.after_eq]
  exact ⟨lastLine a, v, Position.lineText_eq_of_getElem? hn hget, rfl, hv⟩

end SnippetLint.Source
