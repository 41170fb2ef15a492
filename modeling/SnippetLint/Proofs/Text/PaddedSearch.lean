import SnippetLint.Proofs.Text.Padding
import SnippetLint.Proofs.Text.Runs

/-! Readers on two texts that differ in blanks at the ends of their lines alone. They take the same
from both, and what they leave differs again in such blanks alone. -/
namespace SnippetLint.Text

/-- No gap stands in the word, so no line end can come to stand in it either. -/
def isSolid (w : List Char) : Bool := !w.isEmpty && w.all (!isGap ·)

theorem isSolid_iff {w : List Char} : isSolid w ↔ w ≠ [] ∧ ∀ c ∈ w, ¬ isGap c := by
  simp [isSolid]

/-- The rests `r` and `s` that readers leave of `a` and `b`. -/
structure Reads (multi : Bool) (a b r s : List Char) : Prop where
  left : r <:+ a
  right : s <:+ b
  padded : Padded multi r s

section Rel
variable {α β γ δ : Type} {R : α → β → Prop} {S : γ → δ → Prop}

theorem rel_bind {x : Option α} {y : Option β} {f : α → Option γ} {g : β → Option δ}
    (h : Option.Rel R x y) (hf : ∀ u v, R u v → Option.Rel S (f u) (g v)) :
    Option.Rel S (x.bind f) (y.bind g) := by
  cases h with
  | none => exact .none
  | some hr => exact hf _ _ hr

theorem rel_map {x : Option α} {y : Option β} {f : α → γ} {g : β → δ}
    (h : Option.Rel R x y) (hf : ∀ u v, R u v → S (f u) (g v)) :
    Option.Rel S (x.map f) (y.map g) := by
  cases h with
  | none => exact .none
  | some hr => exact .some (hf _ _ hr)

theorem rel_or {x x' : Option α} {y y' : Option β} (h : Option.Rel R x y)
    (h' : Option.Rel R x' y') : Option.Rel R (x.or x') (y.or y') := by
  cases h with
  | none => exact h'
  | some hr => exact .some hr

theorem rel_filter {x : Option α} {y : Option β} {p : α → Bool} {q : β → Bool}
    (h : Option.Rel R x y) (hpq : ∀ u v, R u v → p u = q v) :
    Option.Rel R (x.filter p) (y.filter q) := by
  cases h with
  | none => exact .none
  | some hr =>
    rw [Option.filter_some, Option.filter_some, hpq _ _ hr]
    split_ifs
    · exact .some hr
    · exact .none

theorem isSome_eq_of_rel {x : Option α} {y : Option β} (h : Option.Rel R x y) :
    x.isSome = y.isSome := by
  cases h <;> rfl

theorem any_eq_of_rel {x : Option α} {y : Option β} {p : α → Bool} {q : β → Bool}
    (h : Option.Rel R x y) (hpq : ∀ u v, R u v → p u = q v) : x.any p = y.any q := by
  cases h with
  | none => rfl
  | some hr => exact hpq _ _ hr

theorem all_eq_of_rel {x : Option α} {y : Option β} {p : α → Bool} {q : β → Bool}
    (h : Option.Rel R x y) (hpq : ∀ u v, R u v → p u = q v) : x.all p = y.all q := by
  cases h with
  | none => rfl
  | some hr => exact hpq _ _ hr

theorem rel_and_mem {x : Option α} {y : Option β} (h : Option.Rel R x y) :
    Option.Rel (fun u v => R u v ∧ u ∈ x ∧ v ∈ y) x y := by
  cases h with
  | none => exact .none
  | some hr => exact .some ⟨hr, rfl, rfl⟩

theorem rel_mono {T : α → β → Prop} {x : Option α} {y : Option β} (h : Option.Rel R x y)
    (hRT : ∀ u v, R u v → T u v) : Option.Rel T x y := by
  cases h with
  | none => exact .none
  | some hr => exact .some (hRT _ _ hr)

theorem eq_none_of_rel {y : Option β} (h : Option.Rel R none y) : y = none := by
  cases h
  rfl

theorem eq_of_rel {x y : Option α} (h : Option.Rel Eq x y) : x = y := by
  cases h with
  | none => rfl
  | some hr => rw [hr]

end Rel

variable {multi : Bool} {a b r s : List Char}

theorem Padded.skipBlanks_eq_nil (h : Padded multi [] b) : Text.skipBlanks b = [] := by
  generalize ha : ([] : List Char) = a at h
  induction h with
  | nil => rfl
  | cons => exact absurd ha.symm (List.cons_ne_nil _ _)
  | pad he _ h ih =>
    have hb := isBlank_of_isGap (isGap_of_isPad he)
    rw [Text.skipBlanks, List.dropWhile_cons_of_pos hb]
    exact ih ha

/-- What readers take of the two texts, beside the rests. -/
def Took {α β : Type} (multi : Bool) (a b : List Char) (V : α → β → Prop) (u : α × List Char)
    (v : β × List Char) : Prop :=
  V u.1 v.1 ∧ Reads multi a b u.2 v.2

theorem Padded.reads (h : Padded multi a b) : Reads multi a b a b :=
  ⟨List.suffix_rfl, List.suffix_rfl, h⟩

/-- Nothing, or a gap, comes next. -/
def AtGap (text : List Char) : Prop := ∀ c ∈ text.head?, isGap c

theorem atGap_nil : AtGap [] := fun _ h => absurd h (Option.not_mem_none _)

theorem atGap_cons {c : Char} {text : List Char} : AtGap (c :: text) ↔ isGap c := by
  simp [AtGap]

theorem AtLineEnd.atGap {text : List Char} (h : AtLineEnd text) : AtGap text := by
  intro c hc
  rw [h c hc]
  exact isGap_lineFeed

theorem Padded.atGap (h : Padded multi a b) (ha : AtGap a) : AtGap b := by
  cases h with
  | nil => exact ha
  | cons _ h => exact atGap_cons.mpr (atGap_cons.mp ha)
  | pad he _ h => exact atGap_cons.mpr (isGap_of_isPad he)

theorem char?_of_atGap {c : Char} (hc : ¬ isGap c) {cs : List Char} (h : AtGap cs) :
    char? c cs = none := by
  cases cs with
  | nil => rfl
  | cons d cs =>
    have hd : d ≠ c := by
      rintro rfl
      exact hc (atGap_cons.mp h)
    rw [char?, if_neg hd]

theorem isPrefixOf?_of_atGap {d : Char} (hd : ¬ isGap d) {w cs : List Char} (h : AtGap cs) :
    (d :: w).isPrefixOf? cs = none := by
  cases cs with
  | nil => rfl
  | cons c cs =>
    have hc : ¬ (d == c) = true := by
      rw [beq_iff_eq]
      rintro rfl
      exact hd (atGap_cons.mp h)
    rw [List.isPrefixOf?, if_neg hc]

theorem name?_of_atGap {cs : List Char} (h : AtGap cs) : name? cs = none := by
  have hstart : ∀ c, isGap c → isIdentStart c = false := forall_isGap (by decide)
  cases cs with
  | nil => rfl
  | cons c cs => simp [name?, hstart c (atGap_cons.mp h)]

theorem upTo?_eq (stop : Char) (cs : List Char) :
    upTo? stop cs = (char? stop (cs.dropWhile (· != stop))).map
      fun rest => (cs.takeWhile (· != stop), rest) := by
  have hd := List.head?_dropWhile_not (· != stop) cs
  unfold upTo?
  cases hc : cs.dropWhile (· != stop) with
  | nil => rfl
  | cons d ds =>
    rw [hc] at hd
    have hs : d = stop := by simpa using hd
    rw [char?, if_pos hs]
    rfl

theorem oneOfWords?_cons (w : String) (ws : List String) (before : Option Char)
    (cs : List Char) :
    oneOfWords? (w :: ws) before cs = (wholeWord? w before cs).or (oneOfWords? ws before cs) := by
  unfold oneOfWords?
  rw [List.findSome?_cons]
  cases wholeWord? w before cs <;> rfl

theorem skipBlanks1?_of_isBlank {c : Char} (h : isBlank c) (cs : List Char) :
    skipBlanks1? (c :: cs) = some (skipBlanks (c :: cs)) := by
  rw [skipBlanks1?, if_pos h, skipBlanks, skipBlanks, List.dropWhile_cons_of_pos h]

namespace Reads

theorem trans {r' s' : List Char} (h : Reads multi a b r s) (h' : Reads multi r s r' s') :
    Reads multi a b r' s' :=
  ⟨h'.left.trans h.left, h'.right.trans h.right, h'.padded⟩

theorem dropWhile_of_gap (h : Reads multi a b r s) {p : Char → Bool}
    (hp : ∀ c, isGap c → p c) : Reads multi a b (r.dropWhile p) (s.dropWhile p) :=
  h.trans ⟨List.dropWhile_suffix p, List.dropWhile_suffix p, h.padded.dropWhile_of_gap hp⟩

theorem span_of_not_gap (h : Reads multi a b r s) {p : Char → Bool}
    (hp : ∀ c, isGap c → p c = false) :
    r.takeWhile p = s.takeWhile p ∧ Reads multi a b (r.dropWhile p) (s.dropWhile p) := by
  obtain ⟨ht, hd⟩ := h.padded.span_of_not_gap hp
  exact ⟨ht, h.trans ⟨List.dropWhile_suffix p, List.dropWhile_suffix p, hd⟩⟩

theorem skipBlanks (h : Reads multi a b r s) :
    Reads multi a b (Text.skipBlanks r) (Text.skipBlanks s) :=
  h.dropWhile_of_gap fun _ => isBlank_of_isGap

theorem getD {x y : Option (List Char)} (hx : Option.Rel (Reads multi a b) x y)
    (h : Reads multi a b r s) : Reads multi a b (x.getD r) (y.getD s) := by
  cases hx with
  | none => exact h
  | some hr => exact hr

/-- A reader that stops at gaps is only run where both texts go on with the same character. -/
theorem rel_of_cons {α β : Type} {S : α → β → Prop} {f : List Char → Option α}
    {g : List Char → Option β} (h : Reads multi a b r s)
    (hf : ∀ cs, AtGap cs → f cs = none) (hg : ∀ cs, AtGap cs → g cs = none)
    (hc : ∀ c r s, Reads multi a b (c :: r) (c :: s) → Reads multi a b r s → ¬ isGap c →
      Option.Rel S (f (c :: r)) (g (c :: s))) : Option.Rel S (f r) (g s) := by
  obtain ⟨hr, hs, hp⟩ := h
  have hnone : AtGap r → AtGap s → Option.Rel S (f r) (g s) := by
    intro hr hs
    rw [hf r hr, hg s hs]
    exact .none
  cases hp with
  | nil => exact hnone atGap_nil atGap_nil
  | @cons c r s hn hp =>
    by_cases hgap : isGap c
    · exact hnone (atGap_cons.mpr hgap) (atGap_cons.mpr hgap)
    · exact hc c r s ⟨hr, hs, .cons hn hp⟩
        ⟨(List.suffix_cons c r).trans hr, (List.suffix_cons c s).trans hs, hp⟩ hgap
  | pad he ha hp => exact hnone ha.atGap (atGap_cons.mpr (isGap_of_isPad he))

theorem char? (h : Reads multi a b r s) {c : Char} (hc : ¬ isGap c) :
    Option.Rel (Reads multi a b) (Text.char? c r) (Text.char? c s) := by
  have hgap : ∀ cs, AtGap cs → Text.char? c cs = none := fun _ => char?_of_atGap hc
  refine h.rel_of_cons hgap hgap fun d r s _ hrs _ => ?_
  rw [Text.char?, Text.char?]
  split_ifs
  · exact .some hrs
  · exact .none

theorem isPrefixOf? (h : Reads multi a b r s) {w : List Char} (hw : ∀ c ∈ w, ¬ isGap c) :
    Option.Rel (Reads multi a b) (w.isPrefixOf? r) (w.isPrefixOf? s) := by
  induction w generalizing r s with
  | nil => exact .some h
  | cons d w ih =>
    have hd := hw d List.mem_cons_self
    have hgap : ∀ cs, AtGap cs → (d :: w).isPrefixOf? cs = none :=
      fun _ => isPrefixOf?_of_atGap hd
    refine h.rel_of_cons hgap hgap fun c r s _ hrs _ => ?_
    rw [List.isPrefixOf?, List.isPrefixOf?]
    split_ifs
    · exact ih hrs fun c hc => hw c (List.mem_cons_of_mem d hc)
    · exact .none

theorem wordEnd_eq (h : Padded multi r s) : wordEnd r = wordEnd s := by
  have hword : ∀ c, isGap c → isWordChar c = false := forall_isGap (by decide)
  have hgap : ∀ cs, AtGap cs → wordEnd cs = true := by
    intro cs hcs
    cases cs with
    | nil => rfl
    | cons c cs => simp [wordEnd, hword c (atGap_cons.mp hcs)]
  cases h with
  | nil => rfl
  | cons _ h => rfl
  | pad he ha h => rw [hgap _ ha.atGap, hgap _ (atGap_cons.mpr (isGap_of_isPad he))]

theorem wholeWord? (h : Reads multi a b r s) {w : String} (hw : isSolid w.toList)
    (before : Option Char) :
    Option.Rel (Reads multi a b) (Text.wholeWord? w before r) (Text.wholeWord? w before s) := by
  unfold Text.wholeWord?
  split_ifs
  · exact rel_filter (h.isPrefixOf? (isSolid_iff.mp hw).2) fun _ _ hrs => wordEnd_eq hrs.padded
  · exact .none

theorem oneOfWords? (h : Reads multi a b r s) {ws : List String}
    (hws : ∀ w ∈ ws, isSolid w.toList) (before : Option Char) :
    Option.Rel (Reads multi a b) (Text.oneOfWords? ws before r)
      (Text.oneOfWords? ws before s) := by
  induction ws with
  | nil => exact .none
  | cons w ws ih =>
    have hw := h.wholeWord? (hws w List.mem_cons_self) before
    rw [oneOfWords?_cons, oneOfWords?_cons]
    exact rel_or hw (ih fun w hw => hws w (List.mem_cons_of_mem _ hw))

/-- Blanks that have to be there may be there only for the line end, but then nothing comes after
them. -/
theorem skipBlanks1?_bind {α β : Type} {S : α → β → Prop} {f : List Char → Option α}
    {g : List Char → Option β} (h : Reads multi a b r s) (hg : g [] = none)
    (hfg : ∀ u v, Reads multi a b u v → Option.Rel S (f u) (g v)) :
    Option.Rel S ((skipBlanks1? r).bind f) ((skipBlanks1? s).bind g) := by
  have hskip := hfg _ _ h.skipBlanks
  obtain ⟨hr, hs, hp⟩ := h
  cases hp with
  | nil => exact .none
  | @cons c r s hc hp =>
    by_cases hb : isBlank c
    · rw [skipBlanks1?_of_isBlank hb, skipBlanks1?_of_isBlank hb]
      exact hskip
    · rw [skipBlanks1?, skipBlanks1?, if_neg hb, if_neg hb]
      exact .none
  | @pad e r s he ha hp =>
    rw [skipBlanks1?_of_isBlank (isBlank_of_isGap (isGap_of_isPad he))]
    cases r with
    | nil =>
      rw [(hp.pad he ha).skipBlanks_eq_nil, Option.bind_some, hg]
      exact .none
    | cons c r =>
      have hc : isBlank c := isBlank_of_isGap (atGap_cons.mp ha.atGap)
      rw [skipBlanks1?_of_isBlank hc]
      exact hskip

theorem name? (h : Reads multi a b r s) :
    Option.Rel (Took multi a b Eq) (Text.name? r) (Text.name? s) := by
  have hgap : ∀ cs, AtGap cs → Text.name? cs = none := fun _ => name?_of_atGap
  refine h.rel_of_cons hgap hgap fun c r s _ hrs _ => ?_
  obtain ⟨ht, hd⟩ := hrs.span_of_not_gap (p := isNameChar) (forall_isGap (by decide))
  rw [Text.name?, Text.name?]
  split_ifs
  · exact .some ⟨by rw [ht], hd⟩
  · exact .none

/-- On one line, what comes before a stop is the same in both texts or goes on to the end. -/
theorem before_stop (h : Reads false a b r s) {p : Char → Bool} (hp : ∀ c, isGap c → p c)
    {f : List Char → Option (List Char)} (hnil : f [] = none)
    (hf : ∀ u v, Reads false a b u v → Option.Rel (Reads false a b) (f u) (f v)) :
    Option.Rel (Took false a b Eq) ((f (r.dropWhile p)).map fun rest => (r.takeWhile p, rest))
      ((f (s.dropWhile p)).map fun rest => (s.takeWhile p, rest)) := by
  have hd := hf _ _ (h.dropWhile_of_gap hp)
  rcases h.padded.takeWhile_eq (p := p) with ht | hr
  · exact rel_map hd fun _ _ huv => ⟨ht, huv⟩
  · rw [hr, hnil] at hd
    rw [hr, hnil, eq_none_of_rel hd]
    exact .none

theorem upTo? (h : Reads false a b r s) {stop : Char} (hstop : ¬ isGap stop) :
    Option.Rel (Took false a b Eq) (Text.upTo? stop r) (Text.upTo? stop s) := by
  have hp : ∀ c, isGap c → (c != stop) = true := by
    intro c hc
    rw [bne_iff_ne]
    rintro rfl
    exact hstop hc
  rw [upTo?_eq, upTo?_eq]
  exact h.before_stop hp rfl fun _ _ huv => huv.char? hstop

end Reads

/-! Looking for something all over a text. -/

/-- Whether `p` holds somewhere can be seen in either text. At a line end more places are looked
at, where `p` must not come to hold. -/
theorem Padded.occursFrom_eq {p : Option Char → List Char → Bool}
    (hp : ∀ before a b, Padded multi a b → p before a = p before b)
    (hnil : ∀ before, p before [] = false)
    (hgap : ∀ e cs, isPad e → AtLineEnd cs → p (some e) cs = false)
    (h : Padded multi a b) (before : Option Char) :
    occursFrom p before a = occursFrom p before b := by
  induction h generalizing before with
  | nil => rfl
  | cons hc h ih => rw [occursFrom, occursFrom, ih, hp before _ _ (.cons hc h)]
  | @pad e a b he ha h ih =>
    have hhere := hp before a (e :: b) (.pad he ha h)
    rw [occursFrom, ← ih, ← hhere]
    cases a with
    | nil => simp [occursFrom, hnil]
    | cons c a => rw [occursFrom, occursFrom, hgap e _ he ha, Bool.false_or]

theorem wholeWord?_of_atGap {w : String} (hw : isSolid w.toList) (before : Option Char)
    {cs : List Char} (h : AtGap cs) : wholeWord? w before cs = none := by
  obtain ⟨hne, hsolid⟩ := isSolid_iff.mp hw
  obtain ⟨d, ds, hd⟩ := List.exists_cons_of_ne_nil hne
  have hdgap := hsolid d (hd ▸ List.mem_cons_self)
  rw [wholeWord?, hd, isPrefixOf?_of_atGap hdgap h, Option.filter_none, ite_self]

theorem oneOfWords?_of_atGap {ws : List String} (hws : ∀ w ∈ ws, isSolid w.toList)
    (before : Option Char) {cs : List Char} (h : AtGap cs) : oneOfWords? ws before cs = none := by
  rw [oneOfWords?, List.findSome?_eq_none_iff]
  exact fun w hw => wholeWord?_of_atGap (hws w hw) before h

theorem Padded.hasWord_eq {w : String} (hw : isSolid w.toList) (h : Padded multi a b) :
    hasWord w a = hasWord w b := by
  refine h.occursFrom_eq (fun before a b hab => ?_) (fun before => ?_) (fun e cs _ hcs => ?_) none
  · exact isSome_eq_of_rel (hab.reads.wholeWord? hw before)
  · rw [wholeWord?_of_atGap hw before atGap_nil, Option.isSome_none]
  · rw [wholeWord?_of_atGap hw (some e) hcs.atGap, Option.isSome_none]

theorem length_lt_of_wholeWord? {w : String} (hw : isSolid w.toList) {before : Option Char}
    {cs rest : List Char} (h : wholeWord? w before cs = some rest) :
    rest.length < cs.length := by
  have hpos := List.length_pos_iff.mpr (isSolid_iff.mp hw).1
  unfold wholeWord? at h
  split_ifs at h
  obtain ⟨hfront, -⟩ := Option.filter_eq_some_iff.mp h
  have hcs := List.isPrefixOf?_eq_some_iff_append_eq.mp hfront
  rw [← hcs, List.length_append]
  omega

theorem length_lt_of_oneOfWords? {ws : List String} (hws : ∀ w ∈ ws, isSolid w.toList)
    {before : Option Char} {cs rest : List Char} (h : oneOfWords? ws before cs = some rest) :
    rest.length < cs.length := by
  obtain ⟨w, hw, hrest⟩ := List.exists_of_findSome?_eq_some h
  exact length_lt_of_wholeWord? (hws w hw) hrest

/-- Two runs over the texts stand at one position after one character, but for pads that only the
second has passed at the end of a line. -/
def Abreast (rest : List Char) (p q : Position) (u v : Option Char) : Prop :=
  p = q ∧ u = v ∨ AtLineEnd rest ∧ p.line = q.line

theorem Abreast.advance {c : Char} {rest : List Char} {p q : Position} {u v : Option Char}
    (h : Abreast (c :: rest) p q u v) : p.advance c = q.advance c := by
  rcases h with ⟨rfl, -⟩ | ⟨hc, hl⟩
  · rfl
  · have hc := atLineEnd_cons.mp hc
    rw [Position.advance, Position.advance, if_pos hc, if_pos hc, hl]

theorem Abreast.pad {e : Char} {rest : List Char} {p q : Position} {u v : Option Char}
    (h : Abreast rest p q u v) (he : isPad e) (hr : AtLineEnd rest) :
    Abreast rest p (q.advance e) u (some e) := by
  refine Or.inr ⟨hr, ?_⟩
  rw [Position.advance, if_neg (ne_lineFeed_of_isPad he)]
  rcases h with ⟨rfl, -⟩ | ⟨-, hl⟩
  · rfl
  · exact hl

theorem Abreast.eq_of_not_isGap {c : Char} {rest : List Char} {p q : Position}
    {u v : Option Char} (h : Abreast (c :: rest) p q u v) (hc : ¬ isGap c) : p = q ∧ u = v := by
  rcases h with h | ⟨hn, -⟩
  · exact h
  · exact absurd (hn.atGap c rfl) hc

theorem weight_drop_of_isGap {c : Char} (hc : isGap c) (cs : List Char) (skip : ℕ) :
    weight ((c :: cs).drop skip) = weight (cs.drop (skip - 1)) := by
  cases skip with
  | zero => simp [weight, hc]
  | succ skip => rfl

theorem weight_le_of_suffix {r cs : List Char} (h : r <:+ cs) : weight r ≤ weight cs :=
  h.sublist.countP_le

theorem weight_drop_succ_lt {c : Char} (hc : ¬ isGap c) (cs : List Char) (k : ℕ) :
    weight ((c :: cs).drop (k + 1)) < weight (c :: cs) := by
  have hle := weight_le_of_suffix (List.drop_suffix k cs)
  have hcons : weight (c :: cs) = weight cs + 1 := by simp [weight, hc]
  rw [List.drop_succ_cons, hcons]
  omega

/-- A match ends where the match before it left off, or goes on with the next character. -/
theorem weight_drop_of_suffix {c : Char} {cs r : List Char} (h : r <:+ c :: cs) :
    weight (cs.drop (cs.length - r.length)) = min (weight r) (weight cs) := by
  rcases List.suffix_cons_iff.mp h with rfl | h
  · have hl : cs.length - (c :: cs).length = 0 := by rw [List.length_cons]; omega
    have hw := weight_le_of_suffix (List.suffix_cons c cs)
    rw [hl, List.drop_zero, Nat.min_eq_right hw]
  · rw [← List.suffix_iff_eq_drop.mp h, Nat.min_eq_left (weight_le_of_suffix h)]

section FindAll
variable {α : Type} {V : α → α → Prop}
  {read : Option Char → List Char → Option (α × List Char)}

/-- The reader starts at no gap, and reads related things from texts that differ in pads alone. -/
structure Steady (multi : Bool) (V : α → α → Prop)
    (read : Option Char → List Char → Option (α × List Char)) : Prop where
  rel : ∀ before a b, Padded multi a b →
    Option.Rel (Took multi a b V) (read before a) (read before b)
  atGap : ∀ before cs, AtGap cs → read before cs = none

namespace Steady

theorem findAllFrom_of_isGap (hread : Steady multi V read) {c : Char} (hc : isGap c)
    (place skip : ℕ) (before : Option Char) (cs : List Char) :
    findAllFrom read place before skip (c :: cs) =
      findAllFrom read (place + 1) (some c) (skip - 1) cs := by
  cases skip with
  | zero => rw [findAllFrom, hread.atGap before _ (atGap_cons.mpr hc)]
  | succ skip => rfl

/-- Two searches that run abreast find the same at the same positions. `x` and `y` are what they
have passed; as much is left to skip of one text as of the other. -/
theorem forall₂_findAllFrom (hread : Steady multi V read) (h : Padded multi a b)
    (x y : List Char) {u v : Option Char} {skip skip' : ℕ}
    (hskip : weight (a.drop skip) = weight (b.drop skip'))
    (hxy : Abreast a (.after x) (.after y) u v) :
    List.Forall₂ (fun m n => Position.after ((x ++ a).take m.1) = .after ((y ++ b).take n.1) ∧
      V m.2 n.2)
      (findAllFrom read x.length u skip a) (findAllFrom read y.length v skip' b) := by
  induction h generalizing x y u v skip skip' with
  | nil => simp [findAllFrom]
  | @pad e a b he ha h ih =>
    have hgap := isGap_of_isPad he
    rw [weight_drop_of_isGap hgap] at hskip
    have hrest := ih x (y ++ [e]) hskip (by
      rw [Position.after_append_singleton]
      exact hxy.pad he ha)
    rw [hread.findAllFrom_of_isGap hgap]
    simpa using hrest
  | @cons c a b hc h ih =>
    have hstep := fun k k' (hk : weight (a.drop k) = weight (b.drop k')) =>
      ih (x ++ [c]) (y ++ [c]) (u := some c) (v := some c) hk (by
        rw [Position.after_append_singleton, Position.after_append_singleton]
        exact Or.inl ⟨hxy.advance, rfl⟩)
    simp only [List.append_assoc, List.singleton_append, List.length_append,
      List.length_singleton] at hstep
    by_cases hgap : isGap c
    · rw [weight_drop_of_isGap hgap, weight_drop_of_isGap hgap] at hskip
      rw [hread.findAllFrom_of_isGap hgap, hread.findAllFrom_of_isGap hgap]
      exact hstep _ _ hskip
    -- A character that is no gap is skipped in both texts or in neither.
    have hw := h.weight_eq
    have hcw := (Padded.cons hc h).weight_eq
    cases skip with
    | zero =>
      cases skip' with
      | zero =>
        obtain ⟨hp, rfl⟩ := hxy.eq_of_not_isGap hgap
        have hrel := hread.rel u (c :: a) (c :: b) (.cons hc h)
        rw [findAllFrom, findAllFrom]
        generalize read u (c :: a) = m at hrel ⊢
        generalize read u (c :: b) = n at hrel ⊢
        cases hrel with
        | none => exact hstep 0 0 hw
        | @some m n hmn =>
          obtain ⟨hv, hr, hs, hrs⟩ := hmn
          refine .cons ⟨?_, hv⟩ (hstep _ _ ?_)
          · rw [List.take_left, List.take_left, hp]
          · rw [weight_drop_of_suffix hr, weight_drop_of_suffix hs, hrs.weight_eq, hw]
      | succ k' =>
        have hlt := weight_drop_succ_lt hgap b k'
        exact absurd (hskip.symm.trans hcw) (Nat.ne_of_lt hlt)
    | succ k =>
      cases skip' with
      | zero =>
        have hlt := weight_drop_succ_lt hgap a k
        exact absurd (hskip.trans hcw.symm) (Nat.ne_of_lt hlt)
      | succ k' => exact hstep k k' hskip

theorem forall₂_findAll (hread : Steady multi V read) (h : Padded multi a b) :
    List.Forall₂ (fun m n => Position.after (a.take m.1) = .after (b.take n.1) ∧ V m.2 n.2)
      (findAll read a) (findAll read b) :=
  hread.forall₂_findAllFrom h [] [] h.weight_eq (Or.inl ⟨rfl, rfl⟩)

/-- On one line the same is found at the same places. -/
theorem findAll_eq (hread : Steady false Eq read) (h : Padded false a b) :
    findAll read a = findAll read b := by
  have hfound := hread.forall₂_findAll h
  have hplace : ∀ m ∈ findAll read a, m.1 < a.length := fun _ => place_of_mem_findAll
  have hle := h.length_le
  rw [← List.forall₂_eq_eq_eq]
  refine ((List.forall₂_and_left _ _).mpr ⟨hplace, hfound⟩).imp fun m n hmn => ?_
  obtain ⟨hi, hp, hv⟩ := hmn
  have ha : '\n' ∉ a.take m.1 := fun hn => h.lineFeed_not_mem (List.mem_of_mem_take hn)
  have hb : '\n' ∉ b.take n.1 := fun hn => h.lineFeed_not_mem_right (List.mem_of_mem_take hn)
  rw [Position.after_of_lineFeed_not_mem ha, Position.after_of_lineFeed_not_mem hb] at hp
  have hc := congrArg Position.column hp
  dsimp only at hc
  rw [List.length_take, List.length_take] at hc
  exact Prod.ext (by omega) hv

theorem find?_eq (hread : Steady false Eq read) (h : Padded false a b) :
    find? read a = find? read b := by
  rw [find?, find?, hread.findAll_eq h]

end Steady

end FindAll

theorem wordsFrom_pads {pads : List Char} (hp : ∀ e ∈ pads, isPad e) (offset column : ℕ) :
    wordsFrom offset column pads = [] := by
  induction pads generalizing offset column with
  | nil => exact wordsFrom.eq_1 offset column
  | cons e pads ih =>
    have he : isIdentChar e = false :=
      forall_isGap (p := isIdentChar) (by decide) e (isGap_of_isPad (hp e List.mem_cons_self))
    rw [wordsFrom, he, if_neg Bool.false_ne_true]
    exact ih (fun d hd => hp d (List.mem_cons_of_mem e hd)) _ _

theorem Padded.wordsFrom_eq (h : Padded false a b) (offset column : ℕ) :
    wordsFrom offset column a = wordsFrom offset column b := by
  fun_induction wordsFrom offset column a generalizing b with
  | case1 offset column =>
    obtain ⟨pads, hp, rfl⟩ := h.exists_append
    exact (wordsFrom_pads hp offset column).symm
  | case2 offset column c cs hc run rest hd =>
    rename_i ih
    obtain ⟨b, rfl, hb⟩ := h.of_cons_line
    obtain ⟨ht, hr⟩ := hb.span_of_not_gap (p := isIdentChar) (forall_isGap (by decide))
    rw [wordsFrom, if_pos hc, if_pos hd, ← ht]
    exact ih hr
  | case3 offset column c cs hc run rest hd =>
    rename_i ih
    obtain ⟨b, rfl, hb⟩ := h.of_cons_line
    obtain ⟨ht, hr⟩ := hb.span_of_not_gap (p := isIdentChar) (forall_isGap (by decide))
    rw [wordsFrom, if_pos hc, if_neg hd, ← ht]
    exact congrArg _ (ih hr)
  | case4 offset column c cs hc ih =>
    obtain ⟨b, rfl, hb⟩ := h.of_cons_line
    rw [wordsFrom, if_neg hc]
    exact ih hb

theorem Padded.words_eq (h : Padded false a b) : words a = words b := by
  rw [words_eq_wordsFrom, words_eq_wordsFrom]
  exact h.wordsFrom_eq 0 1

end SnippetLint.Text
