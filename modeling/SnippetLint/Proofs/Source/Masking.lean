import SnippetLint.Proofs.Source.Token
import SnippetLint.Proofs.Text.RealPosition

/-! Masking said by tokens: what stands in a comment or inside a literal becomes a space, and
nothing else changes. -/
namespace SnippetLint.Source
open Text

/-- The character at `place` is in a comment, or in a literal and none of its two quotes. -/
def Token.Blanks (t : Token) (place : ℕ) : Prop :=
  match t.kind with
  | .literal => t.start < place ∧ place + 1 < t.stop
  | .lineComment | .blockComment => t.start ≤ place ∧ place < t.stop

instance (t : Token) (place : ℕ) : Decidable (t.Blanks place) := by
  unfold Token.Blanks
  cases t.kind <;> infer_instance

/-- The character `c` at `place` once the tokens are masked. -/
def shown (ts : List Token) (place : ℕ) (c : Char) : Char :=
  if c ≠ '\n' ∧ ∃ t ∈ ts, t.Blanks place then ' ' else c

theorem Token.Blanks.mem_range {t : Token} {place : ℕ} (h : t.Blanks place) :
    t.start ≤ place ∧ place < t.stop := by
  unfold Token.Blanks at h
  cases hk : t.kind <;> rw [hk] at h <;> dsimp only at h <;> omega

theorem shown_congr {ts us : List Token} {place : ℕ}
    (h : (∃ t ∈ ts, t.Blanks place) ↔ ∃ t ∈ us, t.Blanks place) (c : Char) :
    shown ts place c = shown us place c := by
  unfold shown
  simp only [h]

theorem start_of_mem_tokensFrom {place : ℕ} {ls : List Lexeme} {t : Token}
    (h : t ∈ tokensFrom place ls) : place ≤ t.start := by
  induction ls generalizing place with
  | nil => exact absurd h List.not_mem_nil
  | cons l ls ih =>
    rcases List.mem_append.mp h with h | h
    · obtain ⟨k, -, rfl⟩ := Option.map_eq_some_iff.mp (Option.mem_toList.mp h)
      exact Nat.le_refl _
    · exact Nat.le_trans (Nat.le_add_right _ _) (ih h)

theorem stop_of_mem_tokensFrom {place : ℕ} {ls : List Lexeme} {t : Token}
    (h : t ∈ tokensFrom place ls) : t.stop ≤ place + (ls.flatMap Lexeme.text).length := by
  induction ls generalizing place with
  | nil => exact absurd h List.not_mem_nil
  | cons l ls ih =>
    rw [List.flatMap_cons, List.length_append, ← Nat.add_assoc]
    rcases List.mem_append.mp h with h | h
    · obtain ⟨k, -, rfl⟩ := Option.map_eq_some_iff.mp (Option.mem_toList.mp h)
      exact Nat.le_add_right _ _
    · exact ih h

theorem tokensFrom_append (place : ℕ) (ls ms : List Lexeme) :
    tokensFrom place (ls ++ ms) =
      tokensFrom place ls ++ tokensFrom (place + (ls.flatMap Lexeme.text).length) ms := by
  induction ls generalizing place with
  | nil => rfl
  | cons l ls ih =>
    rw [List.cons_append, tokensFrom, tokensFrom, ih, List.append_assoc, List.flatMap_cons,
      List.length_append, Nat.add_assoc]

theorem shown_of_blanks {t : Token} {place : ℕ} (h : t.Blanks place) (c : Char) :
    shown [t] place c = blankOut c := by
  unfold shown blankOut
  by_cases hc : c = '\n'
  · simp [hc]
  · simp [hc, h]

theorem shown_of_not_blanks {t : Token} {place : ℕ} (h : ¬ t.Blanks place) (c : Char) :
    shown [t] place c = c := by
  unfold shown
  simp [h]

theorem map_blankOut_eq {t : Token} {place : ℕ} (text : List Char)
    (h : ∀ i < text.length, t.Blanks (place + i)) :
    text.map blankOut = text.mapIdx fun i c => shown [t] (place + i) c := by
  apply List.ext_getElem
  · simp
  · intro i hi hj
    rw [List.length_map] at hi
    rw [List.getElem_map, List.getElem_mapIdx, shown_of_blanks (h i hi)]

theorem Lexeme.masked_eq (l : Lexeme) (place : ℕ) :
    l.masked = l.text.mapIdx fun i c => shown (l.token? place).toList (place + i) c := by
  cases l with
  | plain c => simp [masked, text, token?, kind?, shown]
  | lineComment t =>
    exact map_blankOut_eq t fun i hi => ⟨Nat.le_add_right _ _, Nat.add_lt_add_left hi _⟩
  | blockComment t =>
    exact map_blankOut_eq t fun i hi => ⟨Nat.le_add_right _ _, Nat.add_lt_add_left hi _⟩
  | literal t =>
    change blankInside t =
      t.mapIdx fun i c => shown [⟨.literal, place, place + t.length⟩] (place + i) c
    rcases t with _ | ⟨c, cs⟩
    · rfl
    have hfirst (n : ℕ) : ¬ Token.Blanks ⟨.literal, place, place + n⟩ (place + 0) :=
      fun h => absurd h.1 (Nat.lt_irrefl _)
    have hlast (n : ℕ) : ¬ Token.Blanks ⟨.literal, place, place + (n + 1)⟩ (place + n) :=
      fun h => absurd h.2 (Nat.lt_irrefl _)
    rw [List.mapIdx_cons, shown_of_not_blanks (hfirst _)]
    rcases List.eq_nil_or_concat cs with rfl | ⟨inside, d, rfl⟩
    · rfl
    rw [List.concat_eq_append, List.mapIdx_append]
    have hd : shown [⟨.literal, place, place + (c :: (inside ++ [d])).length⟩]
        (place + (0 + inside.length + 1)) d = d := by
      apply shown_of_not_blanks
      have hl : (c :: (inside ++ [d])).length = 0 + inside.length + 1 + 1 := by simp
      rw [hl]
      exact hlast _
    have hi : inside.map blankOut = inside.mapIdx fun i e =>
        shown [⟨.literal, place, place + (c :: (inside ++ [d])).length⟩] (place + (i + 1)) e := by
      simp only [Nat.add_comm _ 1, ← Nat.add_assoc place 1]
      apply map_blankOut_eq
      intro i hi
      refine ⟨?_, ?_⟩
      · dsimp only
        omega
      · simp
        omega
    simp only [blankInside, List.dropLast_concat, List.getLast?_concat, Option.toList_some,
      List.mapIdx_cons, List.mapIdx_nil, hd, hi]

/-- Each lexeme is masked by its own token and by no other. -/
theorem flatMap_masked (ls : List Lexeme) (place : ℕ) :
    ls.flatMap Lexeme.masked =
      (ls.flatMap Lexeme.text).mapIdx fun i c => shown (tokensFrom place ls) (place + i) c := by
  induction ls generalizing place with
  | nil => rfl
  | cons l ls ih =>
    rw [List.flatMap_cons, List.flatMap_cons, List.mapIdx_append, l.masked_eq place,
      ih (place + l.text.length)]
    congr 1
    · apply List.ext_getElem
      · simp
      · intro i hi hj
        rw [List.length_mapIdx] at hi
        rw [List.getElem_mapIdx, List.getElem_mapIdx]
        apply shown_congr
        constructor
        · rintro ⟨t, ht, hb⟩
          exact ⟨t, List.mem_append_left _ ht, hb⟩
        · rintro ⟨t, ht, hb⟩
          rcases List.mem_append.mp ht with ht | ht
          · exact ⟨t, ht, hb⟩
          · have := start_of_mem_tokensFrom ht
            have := hb.mem_range
            omega
    · congr 1
      funext i c
      have hp : place + (i + l.text.length) = place + l.text.length + i := by omega
      rw [hp]
      apply shown_congr
      constructor
      · rintro ⟨t, ht, hb⟩
        exact ⟨t, List.mem_append_right _ ht, hb⟩
      · rintro ⟨t, ht, hb⟩
        rcases List.mem_append.mp ht with ht | ht
        · obtain ⟨k, -, rfl⟩ := Option.map_eq_some_iff.mp (Option.mem_toList.mp ht)
          have := hb.mem_range
          dsimp only at this
          omega
        · exact ⟨t, ht, hb⟩

theorem flatMap_text_lexemes (code : List Char) : (lexemes code).flatMap Lexeme.text = code := by
  fun_induction lexemes code with
  | case1 => rfl
  | case2 c cs ih => rw [List.flatMap_cons, ih, Lexeme.text_next]

theorem mask_eq (code : List Char) : mask code = code.mapIdx (shown (tokens code)) := by
  unfold mask
  rw [flatMap_masked _ 0, flatMap_text_lexemes]
  simp only [Nat.zero_add]
  rfl

theorem shown_eq_newline_iff (ts : List Token) (place : ℕ) (c : Char) :
    shown ts place c = '\n' ↔ c = '\n' := by
  unfold shown
  split_ifs with h
  · exact ⟨fun hs => absurd hs (by decide), fun hc => absurd hc h.1⟩
  · rfl

/-- The masked text has the positions of the code. -/
theorem isReal_mask {code : List Char} {p : Position} : p.IsReal (mask code) ↔ p.IsReal code := by
  apply Position.isReal_congr
  rw [mask_eq]
  exact length_lines_mapIdx (shown_eq_newline_iff _) code

theorem take_mapIdx (f : ℕ → Char → Char) (text : List Char) (n : ℕ) :
    (text.mapIdx f).take n = (text.take n).mapIdx f := by
  apply List.ext_getElem?
  intro i
  rw [List.getElem?_mapIdx, List.getElem?_take, List.getElem?_take, List.getElem?_mapIdx]
  split_ifs <;> rfl

/-- So many characters of the masked text end where as many of the code do. -/
theorem after_take_mask (code : List Char) (n : ℕ) :
    Position.after ((mask code).take n) = Position.after (code.take n) := by
  apply Position.after_congr
  rw [mask_eq, take_mapIdx]
  exact length_lines_mapIdx (shown_eq_newline_iff _) _

end SnippetLint.Source
