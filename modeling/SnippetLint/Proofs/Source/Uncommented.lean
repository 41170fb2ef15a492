import SnippetLint.Proofs.Source.Continuation
import SnippetLint.Proofs.Source.LineEnds

/-! A source text without its `//` comments. All other lexemes stay: what nothing closed before, nor
does anything once the ends of lines are cut off. -/
namespace SnippetLint.Source
open Text

/-- From `offset` on, without what stands between one of the starts and the end of its line. -/
def withoutFrom (starts : List ℕ) (inside : Bool) (offset : ℕ) : List Char → List Char
  | [] => []
  | c :: cs =>
    if c = '\n' then c :: withoutFrom starts false (offset + c.utf8Size) cs
    else if inside || starts.contains offset then
      withoutFrom starts true (offset + c.utf8Size) cs
    else c :: withoutFrom starts false (offset + c.utf8Size) cs

/-- The text without its `//` comments; the line feeds after them stay. -/
def withoutLineComments (code : List Char) : List Char :=
  withoutFrom (lineComments code) false 0 code

def Lexeme.isLineComment : Lexeme → Bool
  | .lineComment _ => true
  | _ => false

/-- What is left of the lexemes without the `//` comments. -/
def keptText (ls : List Lexeme) : List Char := (ls.filter (!·.isLineComment)).flatMap Lexeme.text

theorem keptText_of_comment {l : Lexeme} (h : l.isLineComment = true) (ls : List Lexeme) :
    keptText (l :: ls) = keptText ls := by
  rw [keptText, List.filter_cons_of_neg (by simp [h]), keptText]

theorem keptText_of_not_comment {l : Lexeme} (h : l.isLineComment = false) (ls : List Lexeme) :
    keptText (l :: ls) = l.text ++ keptText ls := by
  rw [keptText, List.filter_cons_of_pos (by simp [h]), List.flatMap_cons, keptText]

/-- A `//` comment goes up to the end of its line. -/
theorem Starts.of_isLineComment {c : Char} {cs rest : List Char} {l : Lexeme}
    (hs : Starts c cs l rest) (h : l.isLineComment = true) :
    l = .lineComment l.text ∧ '\n' ∉ l.text ∧ (rest = [] ∨ rest.head? = some '\n') := by
  cases hs with
  | plain => exact absurd h Bool.false_ne_true
  | blockComment => exact absurd h Bool.false_ne_true
  | literal => exact absurd h Bool.false_ne_true
  | lineComment hc _ hb hr =>
    subst hc
    refine ⟨rfl, ?_, hr⟩
    simpa [Lexeme.text] using hb

section Offsets
variable {starts : List ℕ} {offset : ℕ}

theorem offset_le_of_mem_lineCommentsFrom {n : ℕ} {ls : List Lexeme}
    (h : n ∈ lineCommentsFrom offset ls) : offset ≤ n := by
  induction ls generalizing offset with
  | nil => exact absurd h List.not_mem_nil
  | cons l ls ih =>
    cases l with
    | lineComment t =>
      rcases List.mem_cons.mp h with rfl | h
      · exact Nat.le_refl _
      · exact Nat.le_trans (Nat.le_add_right _ _) (ih h)
    | plain c => exact Nat.le_trans (Nat.le_add_right _ _) (ih h)
    | blockComment t => exact Nat.le_trans (Nat.le_add_right _ _) (ih h)
    | literal t => exact Nat.le_trans (Nat.le_add_right _ _) (ih h)

/-- A piece of the text in which no comment starts. -/
theorem withoutFrom_append {text : List Char}
    (h : ∀ n ∈ starts, offset ≤ n → offset + byteLength text ≤ n) (rest : List Char) :
    withoutFrom starts false offset (text ++ rest) =
      text ++ withoutFrom starts false (offset + byteLength text) rest := by
  induction text generalizing offset with
  | nil => rfl
  | cons c cs ih =>
    have hpos := c.utf8Size_pos
    have hlength : offset + byteLength (c :: cs) = offset + c.utf8Size + byteLength cs := by
      rw [byteLength, Nat.add_assoc]
    have hstart : starts.contains offset = false := by
      rw [← Bool.not_eq_true, List.contains_iff_mem]
      intro hmem
      have := h offset hmem (Nat.le_refl _)
      omega
    have hrest := ih fun n hn hle => by
      rw [← hlength]
      exact h n hn (by omega)
    rw [List.cons_append, withoutFrom, hstart, hlength, hrest]
    simp

/-- Inside a comment all is left out up to the end of the line. -/
theorem withoutFrom_inside {text : List Char} (ht : '\n' ∉ text) (rest : List Char) :
    withoutFrom starts true offset (text ++ rest) =
      withoutFrom starts true (offset + byteLength text) rest := by
  induction text generalizing offset with
  | nil => rfl
  | cons c cs ih =>
    rw [List.mem_cons, not_or] at ht
    rw [List.cons_append, withoutFrom, if_neg (Ne.symm ht.1), Bool.true_or, if_pos rfl, ih ht.2,
      byteLength, Nat.add_assoc]

theorem withoutFrom_lineComment {text rest : List Char} (hne : text ≠ []) (ht : '\n' ∉ text)
    (hrest : rest = [] ∨ rest.head? = some '\n') (hs : offset ∈ starts) :
    withoutFrom starts false offset (text ++ rest) =
      withoutFrom starts false (offset + byteLength text) rest := by
  obtain ⟨c, cs, rfl⟩ := List.exists_cons_of_ne_nil hne
  have hc := ht
  rw [List.mem_cons, not_or] at hc
  have hopen : withoutFrom starts false offset (c :: cs ++ rest) =
      withoutFrom starts true offset (c :: cs ++ rest) := by
    rw [List.cons_append, withoutFrom, withoutFrom, if_neg (Ne.symm hc.1), if_neg (Ne.symm hc.1),
      List.contains_iff_mem.mpr hs]
    rfl
  rw [hopen, withoutFrom_inside ht]
  rcases hrest with rfl | hrest
  · rfl
  · obtain ⟨r, rfl⟩ := List.head?_eq_some_iff.mp hrest
    rfl

theorem lineCommentsFrom_of_not_comment {l : Lexeme} (h : l.isLineComment = false)
    (ls : List Lexeme) :
    lineCommentsFrom offset (l :: ls) = lineCommentsFrom (offset + byteLength l.text) ls := by
  cases l with
  | lineComment t => exact absurd h.symm Bool.false_ne_true
  | plain c => rfl
  | blockComment t => rfl
  | literal t => rfl

/-- The starts are those of the comments among the lexemes. -/
theorem withoutFrom_lexemes {code : List Char}
    (h : ∀ n, offset ≤ n → (n ∈ starts ↔ n ∈ lineCommentsFrom offset (lexemes code))) :
    withoutFrom starts false offset code = keptText (lexemes code) := by
  induction code using lexemes_induction generalizing offset with
  | nil =>
    rw [lexemes_nil]
    rfl
  | cons c cs l rest hnext hs ih =>
    rw [lexemes_of_next hnext] at h ⊢
    obtain ⟨t, ht⟩ := hs.exists_text
    have hne : l.text ≠ [] := by
      rw [ht]
      exact List.cons_ne_nil c t
    have hpos := byteLength_pos hne
    rw [← Lexeme.text_of_next hnext]
    cases hl : l.isLineComment with
    | true =>
      obtain ⟨hcomment, hn, hr⟩ := hs.of_isLineComment hl
      rw [hcomment] at h
      have hopen : offset ∈ starts := (h offset (Nat.le_refl _)).mpr List.mem_cons_self
      rw [withoutFrom_lineComment hne hn hr hopen, keptText_of_comment hl]
      refine ih fun n hle => ?_
      have hlater : n ≠ offset := by omega
      exact (h n (by omega)).trans (List.mem_cons.trans (or_iff_right hlater))
    | false =>
      rw [lineCommentsFrom_of_not_comment hl] at h
      have hpast : ∀ n ∈ starts, offset ≤ n → offset + byteLength l.text ≤ n :=
        fun n hn hle => offset_le_of_mem_lineCommentsFrom ((h n hle).mp hn)
      rw [withoutFrom_append hpast, keptText_of_not_comment hl]
      exact congrArg (l.text ++ ·) (ih fun n hle => h n (by omega))

end Offsets

theorem withoutLineComments_eq (code : List Char) :
    withoutLineComments code = keptText (lexemes code) :=
  withoutFrom_lexemes fun _ _ => Iff.rfl

/-- The first text is the second one with its lines cut off earlier. -/
inductive Clipped : List Char → List Char → Prop where
  | last {cut : List Char} (hcut : '\n' ∉ cut) : Clipped [] cut
  | lineFeed {cut a b : List Char} (hcut : '\n' ∉ cut) (h : Clipped a b) :
      Clipped ('\n' :: a) (cut ++ '\n' :: b)
  | cons {c : Char} {a b : List Char} (h : Clipped a b) : Clipped (c :: a) (c :: b)

variable {a b : List Char}

namespace Clipped

theorem append_left (h : Clipped a b) (text : List Char) : Clipped (text ++ a) (text ++ b) := by
  induction text with
  | nil => exact h
  | cons c cs ih => exact .cons ih

theorem tail (h : Clipped ('\n' :: a) ('\n' :: b)) : Clipped a b := by
  generalize hx : '\n' :: a = x at h
  generalize hy : '\n' :: b = y at h
  cases h with
  | last => exact absurd hx (List.cons_ne_nil _ _)
  | cons h =>
    rw [(List.cons.inj hx).2, (List.cons.inj hy).2]
    exact h
  | @lineFeed cut _ _ hcut h =>
    cases cut with
    | nil =>
      rw [(List.cons.inj hx).2, (List.cons.inj hy).2]
      exact h
    | cons d cut =>
      rw [(List.cons.inj hy).1] at hcut
      exact absurd List.mem_cons_self hcut

/-- Only at the end of a line is something cut off. -/
theorem exists_cons {c : Char} (h : Clipped (c :: a) b) (hc : c ≠ '\n') :
    ∃ b', b = c :: b' ∧ Clipped a b' := by
  cases h with
  | lineFeed => exact absurd rfl hc
  | cons h => exact ⟨_, rfl, h⟩

theorem head?_eq (h : Clipped a b) {c : Char} (hc : c ≠ '\n') (ha : a.head? = some c) :
    b.head? = some c := by
  obtain ⟨a, rfl⟩ := List.head?_eq_some_iff.mp ha
  obtain ⟨b, rfl, -⟩ := h.exists_cons hc
  rfl

theorem blockBody?_eq_none (h : Clipped a b) (hb : Lexeme.blockBody? b = none) :
    Lexeme.blockBody? a = none := by
  induction h with
  | last => rfl
  | @lineFeed cut a b hcut h ih =>
    have hstar : ¬ ('\n' = '*' ∧ a.head? = some '/') := fun hs => absurd hs.1 (by decide)
    have hrest := Lexeme.blockBody?_of_append hb
    refine Lexeme.blockBody?_cons_eq_none_iff.mpr ⟨hstar, ih ?_⟩
    exact (Lexeme.blockBody?_cons_eq_none_iff.mp hrest).2
  | cons h ih =>
    obtain ⟨hend, hrest⟩ := Lexeme.blockBody?_cons_eq_none_iff.mp hb
    refine Lexeme.blockBody?_cons_eq_none_iff.mpr ⟨fun hs => hend ⟨hs.1, ?_⟩, ih hrest⟩
    exact h.head?_eq (by decide) hs.2

/-- A line feed is always passed over, and what is read after it is read afresh. So it is enough to
follow the search up to the end of a line. -/
theorem keepsOpen {quote : Char} (hq : Lexeme.isQuote quote = true) (h : Clipped a b) :
    KeepsOpen quote a b := by
  have hb := Lexeme.ne_backslash_of_isQuote hq
  have hn : '\n' ≠ quote := (Lexeme.ne_of_isQuote hq rfl).symm
  induction h with
  | last => exact ⟨fun _ => unclosed_nil, fun _ => Lexeme.quotedBody?_backslash hb⟩
  | cons h ih => exact ih.append_left hb [_]
  | @lineFeed cut a b hcut h ih =>
    have hafter (before : List Char) (hu : Unclosed quote (before ++ '\n' :: b)) :
        ('\n' = '\n' ∧ quote ≠ '`') ∨ Unclosed quote a := by
      by_cases hk : quote = '`'
      · exact Or.inr (ih.fresh (hu.past hb hn (by decide) before fun hne => absurd hk hne))
      · exact Or.inl ⟨rfl, hk⟩
    refine ⟨fun hu => (unclosed_cons hn (by decide) a).mpr (hafter cut hu), fun hu => ?_⟩
    exact (unclosed_escape hb '\n' a).mpr (hafter ('\\' :: cut) hu)

end Clipped

theorem clipped_keptText (code : List Char) : Clipped (keptText (lexemes code)) code := by
  induction code using lexemes_induction with
  | nil =>
    rw [lexemes_nil]
    exact .last List.not_mem_nil
  | cons c cs l rest hnext hs ih =>
    rw [lexemes_of_next hnext, ← Lexeme.text_of_next hnext]
    cases hl : l.isLineComment with
    | false =>
      rw [keptText_of_not_comment hl]
      exact ih.append_left l.text
    | true =>
      obtain ⟨-, hn, hr⟩ := hs.of_isLineComment hl
      rw [keptText_of_comment hl]
      rcases hr with rfl | hr
      · rw [lexemes_nil, List.append_nil]
        exact .last hn
      · obtain ⟨r, rfl⟩ := List.head?_eq_some_iff.mp hr
        rw [lexemes_lineFeed, keptText_of_not_comment rfl] at ih ⊢
        exact .lineFeed hn ih.tail

/-- A plain character stays plain once the comments after it are left out. -/
theorem next_keptText_of_plain {c : Char} {cs : List Char} (h : (Lexeme.next c cs).1 = .plain c) :
    (Lexeme.next c (keptText (lexemes cs))).1 = .plain c := by
  have hclip := clipped_keptText cs
  refine Lexeme.next_of_plain_before h ?_ ?_ fun hq => (hclip.keepsOpen hq).fresh
  · exact fun hslash hs => hslash (hclip.head?_eq (by decide) hs)
  · intro _ es hes
    rw [hes] at hclip
    obtain ⟨fs, hfs, hrest⟩ := hclip.exists_cons (by decide)
    exact ⟨fs, hfs, hrest.blockBody?_eq_none⟩

theorem lexemes_keptText (code : List Char) :
    lexemes (keptText (lexemes code)) = (lexemes code).filter (!·.isLineComment) := by
  induction code using lexemes_induction with
  | nil =>
    rw [lexemes_nil]
    exact lexemes_nil
  | cons c cs l rest hnext hs ih =>
    rw [lexemes_of_next hnext]
    cases hl : l.isLineComment with
    | true => rw [keptText_of_comment hl, ih, List.filter_cons_of_neg (by simp [hl])]
    | false =>
      obtain ⟨t, ht⟩ := hs.exists_text
      have hkept : Lexeme.next c (t ++ keptText (lexemes rest)) =
          (l, keptText (lexemes rest)) := by
        refine next_before hnext (by rw [ht, List.cons_append]) ?_ ?_
        · rintro rfl
          obtain rfl : t = [] := (List.cons.inj ht).2.symm
          cases hs with
          | plain => exact next_keptText_of_plain (congrArg Prod.fst hnext)
        · rintro u rfl
          exact absurd hl.symm Bool.false_ne_true
      rw [keptText_of_not_comment hl, ht, List.cons_append, lexemes_of_next hkept, ih,
        List.filter_cons_of_pos (by simp [hl])]

theorem lineCommentsFrom_eq_nil {ls : List Lexeme} (h : ∀ l ∈ ls, l.isLineComment = false)
    (offset : ℕ) : lineCommentsFrom offset ls = [] := by
  induction ls generalizing offset with
  | nil => rfl
  | cons l ls ih =>
    rw [lineCommentsFrom_of_not_comment (h l List.mem_cons_self)]
    exact ih (fun m hm => h m (List.mem_cons_of_mem l hm)) _

theorem lineComments_withoutLineComments (code : List Char) :
    lineComments (withoutLineComments code) = [] := by
  rw [lineComments, withoutLineComments_eq, lexemes_keptText]
  refine lineCommentsFrom_eq_nil (fun l hl => ?_) 0
  simpa using (List.mem_filter.mp hl).2

/-- Masking leaves of the comments what counts for nothing at the end of a line. -/
theorem padded_withoutLineComments (code : List Char) :
    Padded true (mask (withoutLineComments code)) (mask code) := by
  rw [withoutLineComments_eq, mask, mask, lexemes_keptText]
  induction code using lexemes_induction with
  | nil =>
    rw [lexemes_nil]
    exact .nil
  | cons c cs l rest hnext hs ih =>
    rw [lexemes_of_next hnext]
    cases hl : l.isLineComment with
    | false =>
      rw [List.filter_cons_of_pos (by simp [hl])]
      exact ih.append_left l.masked
    | true =>
      obtain ⟨hcomment, hn, hr⟩ := hs.of_isLineComment hl
      rw [List.filter_cons_of_neg (by simp [hl]), List.flatMap_cons]
      refine ih.pads ?_ ?_
      · intro e he
        rw [hcomment] at he
        obtain ⟨d, hd, rfl⟩ := List.mem_map.mp he
        have hdn : d ≠ '\n' := fun h => hn (h ▸ hd)
        rw [blankOut, if_neg hdn]
        rfl
      · rcases hr with rfl | hr
        · rw [lexemes_nil]
          exact atLineEnd_nil
        · obtain ⟨r, rfl⟩ := List.head?_eq_some_iff.mp hr
          rw [lexemes_lineFeed, List.filter_cons_of_pos rfl, List.flatMap_cons]
          exact atLineEnd_cons.mpr rfl

end SnippetLint.Source
