import SnippetLint.Pass.CDialect
import SnippetLint.Proofs.Text.Readers

/-! What is taken for the head of a declaration: as many qualifiers as there can be, a type, stars
and a name, with something behind it that ends a head. What comes first is as long as the rest
allows, so that there is one reading of a line at most. -/
namespace SnippetLint.CDialect
open Text

/-- A word that can be a type or a name. -/
structure IsHeadWord (w : List Char) : Prop where
  first : ∃ c ∈ w.head?, isHeadStart c = true
  all : ∀ c ∈ w, isWordChar c = true

/-- The text is the type, stars, the name and what ends a head. Blanks may stand between them. Where
nothing stands between type and name they are two parts of one word. -/
inductive IsPlainHead (ends : List Char → Bool) : List Char → Head → Prop
  | intro {head : Head} {b₁ stars b₂ b₃ rest : List Char} (htype : IsHeadWord head.type)
      (hname : IsHeadWord head.name) (hb₁ : ∀ c ∈ b₁, isBlank c = true)
      (hstars : ∀ c ∈ stars, c = '*') (hb₂ : ∀ c ∈ b₂, isBlank c = true)
      (hb₃ : ∀ c ∈ b₃, isBlank c = true) (hrest : ends rest = true) :
      IsPlainHead ends
        (head.type ++ (b₁ ++ (stars ++ (b₂ ++ (head.name ++ (b₃ ++ rest)))))) head

/-- So many qualifiers stand before a head. -/
inductive IsHead (qualifiers : List String) (ends : List Char → Bool) :
    ℕ → List Char → Head → Prop
  | plain {cs : List Char} {head : Head} (h : IsPlainHead ends cs head) :
      IsHead qualifiers ends 0 cs head
  | qualified {n : ℕ} {w : String} {blanks cs : List Char} {head : Head} (hw : w ∈ qualifiers)
      (hne : blanks ≠ []) (hb : ∀ c ∈ blanks, isBlank c = true)
      (h : IsHead qualifiers ends n cs head) :
      IsHead qualifiers ends (n + 1) (w.toList ++ (blanks ++ cs)) head

/-- Of all readings the one with the most qualifiers, and the longest type among those. -/
structure IsFirstHead (qualifiers : List String) (ends : List Char → Bool) (n : ℕ)
    (cs : List Char) (head : Head) : Prop where
  isHead : IsHead qualifiers ends n cs head
  first : ∀ m other, IsHead qualifiers ends m cs other →
    m < n ∨ m = n ∧ other.type.length ≤ head.type.length

/-- What ends a head is a sign that cannot be part of one. -/
def EndsWithSign (ends : List Char → Bool) : Prop :=
  ∀ rest, ends rest = true →
    ∃ c ∈ rest.head?, isWordChar c = false ∧ isBlank c = false ∧ c ≠ '*'

variable {cs rest w : List Char} {head other : Head} {n m fuel : ℕ} {qualifiers : List String}
  {ends : List Char → Bool}

/-! ### The words of a head -/

theorem isHeadWord_iff : IsHeadWord w ↔
    w.head?.any isHeadStart = true ∧ w.all isWordChar = true := by
  rw [Option.any_eq_true, List.all_eq_true]
  exact ⟨fun h => ⟨h.first, h.all⟩, fun h => ⟨h.1, h.2⟩⟩

instance (w : List Char) : Decidable (IsHeadWord w) := decidable_of_iff' _ isHeadWord_iff

theorem isWordChar_of_isHeadStart {c : Char} (h : isHeadStart c = true) : isWordChar c = true := by
  have hident : isIdentChar c = true := by
    rcases (Bool.or_eq_true _ _).mp h with h | h
    · simp [isIdentChar, Char.isAlphanum, h]
    · simp [isIdentChar, h]
  have hascii : c.toNat < 128 := by
    have hrange := toNat_of_isIdentChar hident
    omega
  rw [isWordChar, if_pos hascii]
  rcases (Bool.or_eq_true _ _).mp h with h | h
  · simp [Char.isAlphanum, h]
  · simp [h]

theorem headWord?_eq_some_iff : headWord? cs = some (w, rest) ↔
    cs = w ++ rest ∧ IsHeadWord w ∧ wordEnd rest = true := by
  constructor
  · intro h
    cases cs with
    | nil => exact absurd h (by simp [headWord?])
    | cons c cs =>
      rw [headWord?] at h
      split_ifs at h with hc
      obtain ⟨rfl, rfl⟩ := Prod.mk.inj (Option.some.inj h)
      have hword : IsHeadWord (c :: cs.takeWhile isWordChar) := ⟨⟨c, rfl, hc⟩,
        List.forall_mem_cons.mpr
          ⟨isWordChar_of_isHeadStart hc, fun d hd => List.mem_takeWhile_imp hd⟩⟩
      exact ⟨by rw [List.cons_append, List.takeWhile_append_dropWhile], hword,
        wordEnd_iff.mpr (head?_dropWhile isWordChar cs)⟩
  · rintro ⟨rfl, ⟨⟨c, hc, hstart⟩, hall⟩, he⟩
    obtain ⟨cs, rfl⟩ := List.head?_eq_some_iff.mp hc
    have hcs : ∀ d ∈ cs, isWordChar d = true := (List.forall_mem_cons.mp hall).2
    rw [List.cons_append, headWord?, if_pos hstart, takeWhile_run hcs (wordEnd_iff.mp he),
      dropWhile_run hcs (wordEnd_iff.mp he)]

theorem headWord?_inj {w' rest' : List Char} (h : headWord? cs = some (w, rest))
    (h' : headWord? cs = some (w', rest')) : w' = w ∧ rest' = rest :=
  Prod.mk.inj (Option.some.inj (h'.symm.trans h))

theorem IsHeadWord.ne_nil (h : IsHeadWord w) : w ≠ [] := by
  rintro rfl
  obtain ⟨c, hc, -⟩ := h.first
  exact absurd hc (Option.not_mem_none c)

theorem IsHeadWord.head?_append (h : IsHeadWord w) {c : Char} (hc : c ∈ (w ++ rest).head?) :
    isHeadStart c = true := by
  obtain ⟨d, hd, hstart⟩ := h.first
  rw [List.head?_append_of_ne_nil _ h.ne_nil] at hc
  rwa [← Option.some.inj (hd.symm.trans hc)]

theorem isBlank_of_isHeadStart {c : Char} (h : isHeadStart c = true) : isBlank c = false := by
  rw [Bool.eq_false_iff]
  intro hb
  exact absurd (isWordChar_of_isHeadStart h) (by rw [isWordChar_of_isBlank hb]; decide)

theorem IsHeadWord.isBlank_head? (h : IsHeadWord w) :
    ∀ c ∈ (w ++ rest).head?, isBlank c = false :=
  fun _ hc => isBlank_of_isHeadStart (h.head?_append hc)

/-! ### A word in two parts -/

/-- The cuts are tried from the last one on. -/
theorem mem_later_or_le_of_cuts {run : List Char} {later sooner : List ℕ} {j k : ℕ}
    (hcuts : (List.range' 1 (run.length - 1)).reverse = later ++ k :: sooner) (hlow : 1 ≤ j)
    (hhigh : j < run.length) : j ∈ later ∨ j ≤ k := by
  have hdescending : (later ++ k :: sooner).Pairwise (· > ·) := by
    rw [← hcuts, List.pairwise_reverse]
    exact List.pairwise_lt_range' 1
  have hmem : j ∈ later ++ k :: sooner := by
    rw [← hcuts, List.mem_reverse, List.mem_range'_1]
    omega
  rcases List.mem_append.mp hmem with hm | hm
  · exact .inl hm
  · rcases List.mem_cons.mp hm with heq | hm
    · exact .inr heq.le
    · exact .inr ((List.pairwise_cons.mp (List.pairwise_append.mp hdescending).2.1).1 j hm).le

theorem cutWord?_eq_some {run : List Char} (h : cutWord? run = some head) :
    run = head.type ++ head.name ∧ head.type ≠ [] ∧ (∃ c ∈ head.name.head?, isHeadStart c = true) ∧
      ∀ t n, run = t ++ n → t ≠ [] → (∃ c ∈ n.head?, isHeadStart c = true) →
        t.length ≤ head.type.length := by
  obtain ⟨later, k, sooner, hrange, hk, hnone⟩ := List.findSome?_eq_some_iff.mp h
  have hkmem : k ∈ (List.range' 1 (run.length - 1)).reverse := by
    rw [hrange]
    exact List.mem_append_right _ List.mem_cons_self
  rw [List.mem_reverse, List.mem_range'_1] at hkmem
  split at hk
  · next c cs hdrop =>
    split_ifs at hk with hc
    obtain rfl := Option.some.inj hk
    have htype : (run.take k).length = k := by
      rw [List.length_take]
      omega
    refine ⟨by rw [← hdrop, List.take_append_drop], ?_, ⟨c, rfl, hc⟩, fun t n hrun hne hn => ?_⟩
    · rw [← List.length_pos_iff, htype]
      omega
    · obtain ⟨d, hd, hstart⟩ := hn
      obtain ⟨ds, rfl⟩ := List.head?_eq_some_iff.mp hd
      have hpos := List.length_pos_iff.mpr hne
      have hshort : t.length < run.length := by simp [hrun]
      rw [htype]
      -- a later cut that leaves a name would have been taken
      rcases mem_later_or_le_of_cuts hrange hpos hshort with hm | hle
      · have hcut := hnone _ hm
        rw [hrun, List.drop_left] at hcut
        simp [hstart] at hcut
      · exact hle
  · exact absurd hk (by simp)

theorem exists_cutWord? {t n : List Char} (hne : t ≠ [])
    (hn : ∃ c ∈ n.head?, isHeadStart c = true) : ∃ head, cutWord? (t ++ n) = some head := by
  rw [← Option.isSome_iff_exists, cutWord?, List.findSome?_isSome_iff]
  obtain ⟨c, hc, hstart⟩ := hn
  obtain ⟨cs, rfl⟩ := List.head?_eq_some_iff.mp hc
  have hpos := List.length_pos_iff.mpr hne
  refine ⟨t.length, ?_, ?_⟩
  · rw [List.mem_reverse, List.mem_range'_1, List.length_append, List.length_cons]
    omega
  · rw [List.drop_left]
    simp [hstart]

/-! ### A head without qualifiers -/

theorem ne_star_of_isHeadStart {c : Char} (h : isHeadStart c = true) : (c == '*') = false :=
  beq_eq_false_of_pred h (by decide)

theorem ne_star_of_isBlank {c : Char} (h : isBlank c = true) : (c == '*') = false :=
  beq_eq_false_of_pred h (by decide)

theorem skipStars_append {b₁ stars b₂ next : List Char} (hb₁ : ∀ c ∈ b₁, isBlank c = true)
    (hstars : ∀ c ∈ stars, c = '*') (hb₂ : ∀ c ∈ b₂, isBlank c = true)
    (hnext : ∀ c ∈ next.head?, isHeadStart c = true) :
    skipBlanks ((skipBlanks (b₁ ++ (stars ++ (b₂ ++ next)))).dropWhile (· == '*')) = next := by
  have hsolid : ∀ c ∈ next.head?, isBlank c = false :=
    fun c hc => isBlank_of_isHeadStart (hnext c hc)
  have hnoStar : ∀ c ∈ next.head?, (c == '*') = false :=
    fun c hc => ne_star_of_isHeadStart (hnext c hc)
  cases stars with
  | nil =>
    have hblanks : ∀ c ∈ b₁ ++ b₂, isBlank c = true := List.forall_mem_append.mpr ⟨hb₁, hb₂⟩
    rw [List.nil_append, ← List.append_assoc, skipBlanks_append hblanks hsolid,
      dropWhile_rest hnoStar]
    exact dropWhile_rest hsolid
  | cons c stars =>
    obtain rfl := hstars c List.mem_cons_self
    have hbehind : ∀ c ∈ (b₂ ++ next).head?, (c == '*') = false :=
      forall_mem_head?_append (fun d hd => ne_star_of_isBlank (hb₂ d hd)) hnoStar
    rw [List.cons_append, skipBlanks_append hb₁ (isBlank_head?_cons (by decide) _),
      ← List.cons_append, dropWhile_run (fun d hd => beq_iff_eq.mpr (hstars d hd)) hbehind]
    exact skipBlanks_append hb₂ hsolid

theorem wordEnd_of_endsWithSign (hends : EndsWithSign ends) (h : ends rest = true) :
    wordEnd rest = true := by
  obtain ⟨c, hc, hword, -⟩ := hends rest h
  simp [wordEnd, Option.mem_def.mp hc, hword]

theorem skipBlanks_of_endsWithSign (hends : EndsWithSign ends) (h : ends rest = true)
    {blanks : List Char} (hb : ∀ c ∈ blanks, isBlank c = true) :
    skipBlanks (blanks ++ rest) = rest := by
  obtain ⟨c, hc, -, hblank, -⟩ := hends rest h
  refine skipBlanks_append hb fun d hd => ?_
  rwa [Option.some.inj (hd.symm.trans hc)]

/-- Blanks or stars end the word before them. -/
theorem wordEnd_of_gap {b₁ stars b₂ next : List Char} (hb₁ : ∀ c ∈ b₁, isBlank c = true)
    (hstars : ∀ c ∈ stars, c = '*') (hb₂ : ∀ c ∈ b₂, isBlank c = true)
    (hgap : b₁ ++ (stars ++ b₂) ≠ []) : wordEnd (b₁ ++ (stars ++ (b₂ ++ next))) = true := by
  refine wordEnd_append hb₁ fun h₁ => ?_
  cases stars with
  | nil =>
    rw [List.nil_append]
    refine wordEnd_append hb₂ fun h₂ => absurd ?_ hgap
    rw [h₁, h₂]
    rfl
  | cons c stars =>
    rw [hstars c List.mem_cons_self]
    rfl

/-- What comes next is a star or the name, and neither ends a head. -/
theorem ends_eq_false_of_next (hends : EndsWithSign ends) {b₁ stars b₂ next : List Char}
    (hb₁ : ∀ c ∈ b₁, isBlank c = true) (hstars : ∀ c ∈ stars, c = '*')
    (hb₂ : ∀ c ∈ b₂, isBlank c = true) (hnext : ∀ c ∈ next.head?, isHeadStart c = true) :
    ends (skipBlanks (b₁ ++ (stars ++ (b₂ ++ next)))) = false := by
  rw [Bool.eq_false_iff]
  intro hsign
  obtain ⟨c, hc, hword, -, hstar⟩ := hends _ hsign
  cases stars with
  | nil =>
    have hblanks : ∀ c ∈ b₁ ++ b₂, isBlank c = true := List.forall_mem_append.mpr ⟨hb₁, hb₂⟩
    rw [List.nil_append, ← List.append_assoc,
      skipBlanks_append hblanks fun c hc => isBlank_of_isHeadStart (hnext c hc)] at hc
    rw [isWordChar_of_isHeadStart (hnext c hc)] at hword
    exact absurd hword (by decide)
  | cons d stars =>
    obtain rfl := hstars d List.mem_cons_self
    rw [List.cons_append, skipBlanks_append hb₁ (isBlank_head?_cons (by decide) _)] at hc
    exact hstar (Option.some.inj hc).symm

/-- Type and name are the two parts of the first word, or the type is that word and the name is the
next one. What comes after the first word tells which. -/
theorem IsPlainHead.words (hends : EndsWithSign ends) (h : IsPlainHead ends cs head) :
    (∃ after, headWord? cs = some (head.type ++ head.name, after) ∧
      ends (skipBlanks after) = true) ∨
    ∃ after final, headWord? cs = some (head.type, after) ∧ ends (skipBlanks after) = false ∧
      headWord? (skipBlanks ((skipBlanks after).dropWhile (· == '*'))) =
        some (head.name, final) ∧ ends (skipBlanks final) = true := by
  obtain @⟨_, b₁, stars, b₂, b₃, rest, htype, hname, hb₁, hstars, hb₂, hb₃, hrest⟩ := h
  have hfinal : wordEnd (b₃ ++ rest) = true :=
    wordEnd_append hb₃ fun _ => wordEnd_of_endsWithSign hends hrest
  have hskip : ends (skipBlanks (b₃ ++ rest)) = true := by
    rw [skipBlanks_of_endsWithSign hends hrest hb₃]
    exact hrest
  by_cases hgap : b₁ ++ (stars ++ b₂) = []
  · left
    obtain ⟨rfl, rfl, rfl⟩ : b₁ = [] ∧ stars = [] ∧ b₂ = [] := by simpa using hgap
    obtain ⟨c, hc, hstart⟩ := htype.first
    have hword : IsHeadWord (head.type ++ head.name) :=
      ⟨⟨c, by rwa [List.head?_append_of_ne_nil _ htype.ne_nil], hstart⟩,
        List.forall_mem_append.mpr ⟨htype.all, hname.all⟩⟩
    exact ⟨b₃ ++ rest, headWord?_eq_some_iff.mpr ⟨by simp, hword, hfinal⟩, hskip⟩
  · right
    have hnext : ∀ c ∈ (head.name ++ (b₃ ++ rest)).head?, isHeadStart c = true :=
      fun c hc => hname.head?_append hc
    have hafter : wordEnd (b₁ ++ (stars ++ (b₂ ++ (head.name ++ (b₃ ++ rest))))) = true :=
      wordEnd_of_gap hb₁ hstars hb₂ hgap
    refine ⟨_, b₃ ++ rest, headWord?_eq_some_iff.mpr ⟨rfl, htype, hafter⟩,
      ends_eq_false_of_next hends hb₁ hstars hb₂ hnext, ?_, hskip⟩
    rw [skipStars_append hb₁ hstars hb₂ hnext]
    exact headWord?_eq_some_iff.mpr ⟨rfl, hname, hfinal⟩

theorem IsPlainHead.type (h : IsPlainHead ends cs head) : IsHeadWord head.type := by
  cases h
  assumption

theorem IsPlainHead.name (h : IsPlainHead ends cs head) : IsHeadWord head.name := by
  cases h
  assumption

/-- Only one name comes after a type. -/
theorem IsPlainHead.eq_of_length (hends : EndsWithSign ends) (h : IsPlainHead ends cs head)
    (ho : IsPlainHead ends cs other) (hlen : other.type.length = head.type.length) :
    other = head := by
  obtain ⟨t, n⟩ := head
  obtain ⟨t', n'⟩ := other
  rw [Head.mk.injEq]
  rcases h.words hends with ⟨after, hrun, he⟩ | ⟨after, final, hrun, he, hname, -⟩
  · rcases ho.words hends with ⟨after', hrun', -⟩ | ⟨after', final', hrun', he', -⟩
    · exact List.append_inj (headWord?_inj hrun hrun').1 hlen
    · obtain ⟨-, rfl⟩ := headWord?_inj hrun hrun'
      exact absurd (he.symm.trans he') (by decide)
  · rcases ho.words hends with ⟨after', hrun', he'⟩ | ⟨after', final', hrun', -, hname', -⟩
    · obtain ⟨-, rfl⟩ := headWord?_inj hrun hrun'
      exact absurd (he.symm.trans he') (by decide)
    · obtain ⟨htype, rfl⟩ := headWord?_inj hrun hrun'
      exact ⟨htype, (headWord?_inj hname hname').1⟩

/-- A head is read, and no other one has a longer type. -/
theorem isPlainHead_of_plainHead? (hends : EndsWithSign ends) (h : plainHead? ends cs = some head) :
    IsPlainHead ends cs head ∧
      ∀ other, IsPlainHead ends cs other → other.type.length ≤ head.type.length := by
  obtain ⟨⟨run, after⟩, hrun, hbehind⟩ := Option.bind_eq_some_iff.mp h
  obtain ⟨rfl, hword, -⟩ := headWord?_eq_some_iff.mp hrun
  obtain ⟨b₁, hb, hb₁⟩ := exists_append_skipBlanks after
  dsimp only at hbehind
  split_ifs at hbehind with he
  · obtain ⟨rfl, hne, hstart, hmax⟩ := cutWord?_eq_some hbehind
    obtain ⟨c, hc, hfirst⟩ := hword.first
    rw [List.head?_append_of_ne_nil _ hne] at hc
    obtain ⟨htype, hname⟩ := List.forall_mem_append.mp hword.all
    constructor
    · have hplain := IsPlainHead.intro ⟨⟨c, hc, hfirst⟩, htype⟩ ⟨hstart, hname⟩
        (List.forall_mem_nil _) (List.forall_mem_nil _) (List.forall_mem_nil _) hb₁ he
      simpa [← hb] using hplain
    · intro other ho
      rcases ho.words hends with ⟨after', hrun', -⟩ | ⟨after', final, hrun', he', -⟩
      · exact hmax _ _ (headWord?_inj hrun hrun').1.symm ho.type.ne_nil ho.name.first
      · obtain ⟨-, rfl⟩ := headWord?_inj hrun hrun'
        exact absurd (he.symm.trans he') (by decide)
  · obtain ⟨⟨name, final⟩, hname, hend⟩ := Option.bind_eq_some_iff.mp hbehind
    dsimp only at hend
    split_ifs at hend with hf
    obtain rfl := Option.some.inj hend
    obtain ⟨hnext, hnameWord, -⟩ := headWord?_eq_some_iff.mp hname
    constructor
    · obtain ⟨b₂, hb', hb₂⟩ :=
        exists_append_skipBlanks ((skipBlanks after).dropWhile (· == '*'))
      obtain ⟨b₃, hb'', hb₃⟩ := exists_append_skipBlanks final
      have hstars : ∀ c ∈ (skipBlanks after).takeWhile (· == '*'), c = '*' := by
        intro c hc
        simpa using List.mem_takeWhile_imp hc
      have hplain := @IsPlainHead.intro ends ⟨run, name⟩ _ _ _ _ _ hword hnameWord hb₁ hstars
        hb₂ hb₃ hf
      rwa [← hb'', ← hnext, ← hb', List.takeWhile_append_dropWhile, ← hb] at hplain
    · intro other ho
      rcases ho.words hends with ⟨after', hrun', he'⟩ | ⟨after', final, hrun', -⟩
      · obtain ⟨-, rfl⟩ := headWord?_inj hrun hrun'
        exact absurd he' he
      · rw [(headWord?_inj hrun hrun').1]

theorem IsPlainHead.exists_plainHead? (hends : EndsWithSign ends) (h : IsPlainHead ends cs head) :
    ∃ first, plainHead? ends cs = some first := by
  rcases h.words hends with ⟨after, hrun, he⟩ | ⟨after, final, hrun, he, hname, hf⟩
  · obtain ⟨first, hcut⟩ := exists_cutWord? h.type.ne_nil h.name.first
    exact ⟨first, by simp [plainHead?, hrun, he, hcut]⟩
  · exact ⟨head, by simp [plainHead?, hrun, he, hname, hf]⟩

/-! ### Qualifiers -/

/-- All qualifiers are words. -/
def AreWords (qualifiers : List String) : Prop := ∀ w ∈ qualifiers, IsHeadWord w.toList

instance (qualifiers : List String) : Decidable (AreWords qualifiers) :=
  inferInstanceAs (Decidable (∀ w ∈ qualifiers, IsHeadWord w.toList))

theorem IsHead.isBlank_head? (hq : AreWords qualifiers) (h : IsHead qualifiers ends n cs head) :
    ∀ c ∈ cs.head?, isBlank c = false := by
  cases h with
  | plain h =>
    cases h
    exact fun c hc => ‹IsHeadWord head.type›.isBlank_head? c hc
  | qualified hw => exact fun c hc => (hq _ hw).isBlank_head? c hc

/-- The first qualifier and the blanks after it can be read in one way only. -/
theorem isHead_succ_iff (hq : AreWords qualifiers) :
    IsHead qualifiers ends (n + 1) cs head ↔
      ∃ rest, (oneOfWords? qualifiers none cs).bind skipBlanks1? = some rest ∧
        IsHead qualifiers ends n rest head := by
  simp only [Option.bind_eq_some_iff, oneOfWords?_eq_some_iff fun w hw => (hq w hw).all,
    skipBlanks1?_eq_some_iff]
  constructor
  · rintro (_ | @⟨_, w, blanks, rest, _, hw, hne, hb, h⟩)
    have hend : wordEnd (blanks ++ rest) = true := wordEnd_append hb fun hnil => absurd hnil hne
    exact ⟨rest, ⟨_, ⟨⟨w, hw, rfl⟩, rfl, hend⟩, blanks, rfl, hne, hb, h.isBlank_head? hq⟩, h⟩
  · rintro ⟨rest, ⟨_, ⟨⟨w, hw, rfl⟩, -⟩, blanks, rfl, hne, hb, -⟩, h⟩
    exact .qualified hw hne hb h

theorem length_lt_of_qualified (hq : AreWords qualifiers)
    (h : (oneOfWords? qualifiers none cs).bind skipBlanks1? = some rest) :
    rest.length < cs.length := by
  obtain ⟨_, hword, hskip⟩ := Option.bind_eq_some_iff.mp h
  obtain ⟨⟨w, -, rfl⟩, -⟩ := (oneOfWords?_eq_some_iff fun w hw => (hq w hw).all).mp hword
  obtain ⟨blanks, rfl, hne, -⟩ := skipBlanks1?_eq_some_iff.mp hskip
  have hpos := List.length_pos_iff.mpr hne
  simp only [List.length_append]
  omega

theorem IsFirstHead.qualified (hq : AreWords qualifiers)
    (hread : (oneOfWords? qualifiers none cs).bind skipBlanks1? = some rest)
    (h : IsFirstHead qualifiers ends n rest head) :
    IsFirstHead qualifiers ends (n + 1) cs head := by
  refine ⟨(isHead_succ_iff hq).mpr ⟨rest, hread, h.isHead⟩, fun m other ho => ?_⟩
  cases m with
  | zero => exact .inl (Nat.succ_pos n)
  | succ m =>
    obtain ⟨rest', hread', ho⟩ := (isHead_succ_iff hq).mp ho
    obtain rfl := Option.some.inj (hread.symm.trans hread')
    have hm := h.first m other ho
    omega

theorem IsHead.eq_of_length (hq : AreWords qualifiers) (hends : EndsWithSign ends)
    (h : IsHead qualifiers ends n cs head) (ho : IsHead qualifiers ends n cs other)
    (hlen : other.type.length = head.type.length) : other = head := by
  induction n generalizing cs with
  | zero =>
    cases h with
    | plain h =>
      cases ho with
      | plain ho => exact h.eq_of_length hends ho hlen
  | succ n ih =>
    obtain ⟨rest, hrest, h⟩ := (isHead_succ_iff hq).mp h
    obtain ⟨rest', hrest', ho⟩ := (isHead_succ_iff hq).mp ho
    obtain rfl := Option.some.inj (hrest.symm.trans hrest')
    exact ih h ho

/-- Where no qualifier is passed over the type comes first. -/
theorem plainHead?_spec (hends : EndsWithSign ends)
    (hno : ∀ n head, ¬ IsHead qualifiers ends (n + 1) cs head) :
    (∀ head, plainHead? ends cs = some head → IsFirstHead qualifiers ends 0 cs head) ∧
      (plainHead? ends cs = none → ∀ n head, ¬ IsHead qualifiers ends n cs head) := by
  constructor
  · intro head hread
    obtain ⟨hplain, hmax⟩ := isPlainHead_of_plainHead? hends hread
    refine ⟨.plain hplain, fun m other ho => ?_⟩
    cases ho with
    | plain ho => exact .inr ⟨rfl, hmax other ho⟩
    | qualified hw hne hb ho => exact absurd (.qualified hw hne hb ho) (hno _ other)
  · intro hnone n head h
    cases h with
    | plain h =>
      obtain ⟨first, hfirst⟩ := h.exists_plainHead? hends
      rw [hnone] at hfirst
      exact absurd hfirst (Option.some_ne_none first).symm
    | qualified hw hne hb h => exact hno _ head (.qualified hw hne hb h)

/-- A head is read if there is one, and it is the first one. -/
theorem headFrom?_spec (hq : AreWords qualifiers) (hends : EndsWithSign ends)
    (hfuel : cs.length ≤ fuel) :
    (∀ head, headFrom? qualifiers ends fuel cs = some head →
        ∃ n, IsFirstHead qualifiers ends n cs head) ∧
      (headFrom? qualifiers ends fuel cs = none →
        ∀ n head, ¬ IsHead qualifiers ends n cs head) := by
  induction fuel generalizing cs with
  | zero =>
    have hno : ∀ n head, ¬ IsHead qualifiers ends (n + 1) cs head := by
      intro n head h
      obtain ⟨rest, hread, -⟩ := (isHead_succ_iff hq).mp h
      have hlt := length_lt_of_qualified hq hread
      omega
    obtain ⟨hsome, hnone⟩ := plainHead?_spec hends hno
    exact ⟨fun head h => ⟨0, hsome head h⟩, hnone⟩
  | succ fuel ih =>
    rw [headFrom?]
    cases hread : (oneOfWords? qualifiers none cs).bind skipBlanks1? with
    | none =>
      have hno : ∀ n head, ¬ IsHead qualifiers ends (n + 1) cs head := by
        intro n head h
        obtain ⟨rest, hrest, -⟩ := (isHead_succ_iff hq).mp h
        rw [hread] at hrest
        exact absurd hrest (Option.some_ne_none rest).symm
      obtain ⟨hsome, hnone⟩ := plainHead?_spec hends hno
      rw [Option.bind_none, Option.none_or]
      exact ⟨fun head h => ⟨0, hsome head h⟩, hnone⟩
    | some rest =>
      have hshort := length_lt_of_qualified hq hread
      have hfuel' : rest.length ≤ fuel := by omega
      obtain ⟨hsome, hnone⟩ := ih hfuel'
      rw [Option.bind_some]
      cases hlater : headFrom? qualifiers ends fuel rest with
      | some first =>
        obtain ⟨n, hn⟩ := hsome first hlater
        rw [Option.some_or]
        refine ⟨fun head h => ⟨n + 1, ?_⟩, fun h => absurd h (Option.some_ne_none first)⟩
        rw [← Option.some.inj h]
        exact hn.qualified hq hread
      | none =>
        have hno : ∀ n head, ¬ IsHead qualifiers ends (n + 1) cs head := by
          intro n head h
          obtain ⟨rest', hread', h⟩ := (isHead_succ_iff hq).mp h
          obtain rfl := Option.some.inj (hread.symm.trans hread')
          exact hnone hlater n head h
        obtain ⟨hsome, hnone⟩ := plainHead?_spec hends hno
        rw [Option.none_or]
        exact ⟨fun head h => ⟨0, hsome head h⟩, hnone⟩

theorem head?_eq_some_iff (hq : AreWords qualifiers) (hends : EndsWithSign ends) :
    head? qualifiers ends cs = some head ↔ ∃ n, IsFirstHead qualifiers ends n cs head := by
  obtain ⟨hsome, hnone⟩ := headFrom?_spec hq hends (le_refl cs.length)
  constructor
  · exact hsome head
  · rintro ⟨n, hn⟩
    cases hread : head? qualifiers ends cs with
    | none => exact absurd hn.isHead (hnone hread n head)
    | some other =>
      obtain ⟨m, hm⟩ := hsome other hread
      -- neither of the two is before the other
      have hle := hn.first m other hm.isHead
      have hge := hm.first n head hn.isHead
      obtain rfl : m = n := by omega
      rw [hn.isHead.eq_of_length hq hends hm.isHead (by omega)]

/-- What is taken for the definition of a function: a head at the start of the line, then an opening
parenthesis. -/
theorem functionHead?_eq_some_iff : functionHead? cs = some head ↔
    ∃ n, IsFirstHead ["static", "inline", "extern", "const", "unsigned", "signed", "struct"]
      (·.head? == some '(') n cs head := by
  refine head?_eq_some_iff (by decide) fun rest h => ⟨'(', beq_iff_eq.mp h, ?_⟩
  decide

/-- The last of several words is the name, and a qualifier is no part of the type. -/
example : functionHead? "static int * f(int a)".toList =
    some ⟨"int".toList, "f".toList⟩ := by decide +kernel

/-- What is taken for the declaration of a variable: blanks, a head, then a sign before a value or
a size, or the one that ends the statement. -/
theorem variableHead?_eq_some_iff : variableHead? cs = some head ↔
    ∃ blanks body n, cs = blanks ++ body ∧ blanks ≠ [] ∧ (∀ c ∈ blanks, isBlank c = true) ∧
      IsFirstHead ["const", "unsigned", "signed", "long", "short", "static", "volatile",
        "register", "struct", "enum", "union"]
        (fun cs => cs.head? == some '=' || cs.head? == some ';' || cs.head? == some '[')
        n body head := by
  have hq : AreWords ["const", "unsigned", "signed", "long", "short", "static", "volatile",
      "register", "struct", "enum", "union"] := by decide
  have hends : EndsWithSign fun cs =>
      cs.head? == some '=' || cs.head? == some ';' || cs.head? == some '[' := by
    intro rest h
    rw [Bool.or_eq_true, Bool.or_eq_true, beq_iff_eq, beq_iff_eq, beq_iff_eq] at h
    rcases h with (h | h) | h
    · exact ⟨'=', h, by decide⟩
    · exact ⟨';', h, by decide⟩
    · exact ⟨'[', h, by decide⟩
  have hbind : variableHead? cs = some head ↔ ∃ body, skipBlanks1? cs = some body ∧
      head? _ _ body = some head := Option.bind_eq_some_iff
  simp only [hbind, skipBlanks1?_eq_some_iff, head?_eq_some_iff hq hends]
  constructor
  · rintro ⟨body, ⟨blanks, hcs, hne, hb, -⟩, n, h⟩
    exact ⟨blanks, body, n, hcs, hne, hb, h⟩
  · rintro ⟨blanks, body, n, hcs, hne, hb, h⟩
    exact ⟨body, ⟨blanks, hcs, hne, hb, h.isHead.isBlank_head? hq⟩, n, h⟩

end SnippetLint.CDialect
