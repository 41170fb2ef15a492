import SnippetLint.Pass.Smell
import SnippetLint.Proofs.Pass.BracketRepair
import SnippetLint.Proofs.Text.Readers

/-! The first block of a text. It is cut out by byte offsets, which are always those of characters,
and no brace is counted that closes nothing. What is cut out is the text up to the brace that closes
the block: the braces in it come in pairs, and no other beginning of the text is like that. -/
namespace SnippetLint.Smell
open Text

variable {cs body rest before : List Char} {c : Char} {p : Char → Bool}

/-- The text up to the brace that closes a block, where `depth` blocks inside it are open. -/
def blockBody? (depth : ℕ) : List Char → Option (List Char)
  | [] => none
  | c :: cs =>
    if c = '\x7b' then (blockBody? (depth + 1) cs).map (c :: ·)
    else if c = '\x7d' then
      match depth with
      | 0 => some []
      | inner + 1 => (blockBody? inner cs).map (c :: ·)
    else (blockBody? depth cs).map (c :: ·)

/-- What may come between a place and the block that opens next. -/
def isBetween (c : Char) : Bool := c != '\x7b' && c != ';'

/-- The inside of the first block, unless a semicolon comes before it. -/
def firstBlock? (cs : List Char) : Option (List Char) :=
  match cs.dropWhile isBetween with
  | '\x7b' :: rest => blockBody? 0 rest
  | _ => none

theorem offsetOf?_eq_none (h : ∀ c ∈ cs, p c = false) : offsetOf? p cs = none := by
  induction cs with
  | nil => rfl
  | cons c cs ih =>
    obtain ⟨hc, hcs⟩ := List.forall_mem_cons.mp h
    rw [offsetOf?, hc, if_neg Bool.false_ne_true, ih hcs]
    rfl

theorem offsetOf?_append (h : ∀ c ∈ before, p c = false) (hc : p c = true) :
    offsetOf? p (before ++ c :: cs) = some (byteLength before) := by
  induction before with
  | nil => rw [List.nil_append, offsetOf?, if_pos hc]; rfl
  | cons d before ih =>
    obtain ⟨hd, hbefore⟩ := List.forall_mem_cons.mp h
    rw [List.cons_append, offsetOf?, hd, if_neg Bool.false_ne_true, ih hbefore]
    rfl

/-- In a block the count of open blocks stays above zero up to the brace that closes it. -/
theorem closingBrace?_eq (depth offset : ℕ) (cs : List Char) :
    closingBrace? (depth + 1) offset cs =
      some ((blockBody? depth cs).map fun body => offset + byteLength body) := by
  induction cs generalizing depth offset with
  | nil => rfl
  | cons c cs ih =>
    have hmap : ∀ block : Option (List Char),
        (block.map fun body => offset + c.utf8Size + byteLength body) =
          (block.map (c :: ·)).map fun body => offset + byteLength body := by
      intro block
      rw [Option.map_map]
      congr 1
      funext body
      rw [Function.comp_apply, byteLength, Nat.add_assoc]
    rw [closingBrace?, blockBody?.eq_def]
    dsimp only
    split_ifs with hopen hclose
    · rw [ih, hmap]
    · rw [pred?, Option.bind_some]
      cases depth with
      | zero => rfl
      | succ inner => rw [if_neg (Nat.succ_ne_zero inner), ih, hmap]
    · rw [ih, hmap]

/-! ### Braces in pairs -/

/-- The braces of the text come in pairs. -/
def Balanced (text : List Char) : Prop := ∃ d : DyckWord, d.toList = Bracket.curly.steps text

theorem balanced_iff : Balanced body ↔ Bracket.Lands 0 (Bracket.curly.steps body) :=
  (Bracket.lands_zero_iff _).symm

instance : DecidablePred Balanced := fun body =>
  decidable_of_iff (Bracket.curly.countFrom 0 body = 0)
    ((Bracket.curly.countFrom_eq_zero_iff 0 body).trans balanced_iff.symm)

theorem steps_open (cs : List Char) :
    Bracket.curly.steps ('\x7b' :: cs) = DyckStep.U :: Bracket.curly.steps cs := rfl

theorem steps_close (cs : List Char) :
    Bracket.curly.steps ('\x7d' :: cs) = DyckStep.D :: Bracket.curly.steps cs := rfl

theorem steps_other (hopen : c ≠ '\x7b') (hclose : c ≠ '\x7d') (cs : List Char) :
    Bracket.curly.steps (c :: cs) = Bracket.curly.steps cs := by
  rw [Bracket.steps]
  exact (if_neg hopen).trans (if_neg hclose)

theorem blockBody?_append {depth : ℕ} (h : Bracket.Lands depth (Bracket.curly.steps body))
    (rest : List Char) : blockBody? depth (body ++ '\x7d' :: rest) = some body := by
  induction body generalizing depth with
  | nil =>
    have hends := h.ends
    obtain rfl : depth = 0 := by simpa [Bracket.steps] using hends
    rfl
  | cons c body ih =>
    rw [List.cons_append, blockBody?.eq_def]
    dsimp only
    split_ifs with hopen hclose
    · rw [hopen, steps_open, Bracket.lands_up] at h
      rw [ih h]
      rfl
    · rw [hclose, steps_close] at h
      cases depth with
      | zero => exact absurd h Bracket.not_lands_down
      | succ inner =>
        dsimp only
        rw [ih (Bracket.lands_down.mp h)]
        rfl
    · rw [steps_other hopen hclose] at h
      rw [ih h]
      rfl

theorem exists_of_blockBody? {depth : ℕ} (h : blockBody? depth cs = some body) :
    (∃ rest, cs = body ++ '\x7d' :: rest) ∧
      Bracket.Lands depth (Bracket.curly.steps body) := by
  induction cs generalizing depth body with
  | nil => exact absurd h (Option.some_ne_none body).symm
  | cons c cs ih =>
    rw [blockBody?.eq_def] at h
    dsimp only at h
    split_ifs at h with hopen hclose
    · obtain ⟨inside, hinside, rfl⟩ := Option.map_eq_some_iff.mp h
      obtain ⟨⟨rest, rfl⟩, hlands⟩ := ih hinside
      subst hopen
      exact ⟨⟨rest, rfl⟩, Bracket.lands_up.mpr hlands⟩
    · subst hclose
      cases depth with
      | zero =>
        obtain rfl := Option.some.inj h
        exact ⟨⟨cs, rfl⟩, rfl, fun i => by simp [Bracket.steps]⟩
      | succ inner =>
        obtain ⟨inside, hinside, rfl⟩ := Option.map_eq_some_iff.mp h
        obtain ⟨⟨rest, rfl⟩, hlands⟩ := ih hinside
        exact ⟨⟨rest, rfl⟩, Bracket.lands_down.mpr hlands⟩
    · obtain ⟨inside, hinside, rfl⟩ := Option.map_eq_some_iff.mp h
      obtain ⟨⟨rest, rfl⟩, hlands⟩ := ih hinside
      rw [steps_other hopen hclose]
      exact ⟨⟨rest, rfl⟩, hlands⟩

theorem blockBody?_zero_eq_some_iff :
    blockBody? 0 cs = some body ↔ (∃ rest, cs = body ++ '\x7d' :: rest) ∧ Balanced body := by
  rw [balanced_iff]
  constructor
  · exact exists_of_blockBody?
  · rintro ⟨⟨rest, rfl⟩, h⟩
    exact blockBody?_append h rest

/-! ### The first block -/

/-- The text goes on with a block, before which no statement ends, and `body` is its inside. -/
structure OpensBlock (gap body rest text : List Char) : Prop where
  text_eq : text = gap ++ '\x7b' :: (body ++ '\x7d' :: rest)
  gap : ∀ c ∈ gap, c ≠ '\x7b' ∧ c ≠ ';'
  body : Balanced body

theorem isBetween_iff : isBetween c = true ↔ c ≠ '\x7b' ∧ c ≠ ';' := by
  rw [isBetween, Bool.and_eq_true, bne_iff_ne, bne_iff_ne]

theorem stops_eq (c : Char) : (c == '\x7b' || c == ';') = !isBetween c := by
  rw [isBetween, bne, bne, ← Bool.not_or, Bool.not_not]

/-- The text goes on for ever without a block, or up to something that opens one or ends a
statement. -/
theorem exists_stop (text : List Char) :
    (∀ c ∈ text, isBetween c = true) ∨ ∃ gap c cs, text = gap ++ c :: cs ∧
      (∀ d ∈ gap, isBetween d = true) ∧ isBetween c = false := by
  induction text with
  | nil => exact .inl fun _ h => absurd h List.not_mem_nil
  | cons d ds ih =>
    cases hd : isBetween d with
    | false => exact .inr ⟨[], d, ds, rfl, fun _ h => absurd h List.not_mem_nil, hd⟩
    | true =>
      rcases ih with hds | ⟨gap, c, cs, rfl, hgap, hc⟩
      · exact .inl (List.forall_mem_cons.mpr ⟨hd, hds⟩)
      · exact .inr ⟨d :: gap, c, cs, rfl, List.forall_mem_cons.mpr ⟨hd, hgap⟩, hc⟩

theorem firstBlock?_eq (cs : List Char) :
    firstBlock? cs = (char? '\x7b' (cs.dropWhile isBetween)).bind (blockBody? 0) := by
  unfold firstBlock?
  cases cs.dropWhile isBetween with
  | nil => rfl
  | cons d ds => by_cases hd : d = '\x7b' <;> simp [char?, hd]

theorem firstBlock?_eq_none (h : ∀ c ∈ cs, isBetween c = true) : firstBlock? cs = none := by
  rw [firstBlock?_eq, List.dropWhile_eq_nil_iff.mpr h]
  rfl

theorem firstBlock?_append {gap : List Char} (hgap : ∀ d ∈ gap, isBetween d = true)
    (hc : isBetween c = false) (cs : List Char) :
    firstBlock? (gap ++ c :: cs) = if c = '\x7b' then blockBody? 0 cs else none := by
  rw [firstBlock?_eq, List.dropWhile_append_of_pos hgap,
    List.dropWhile_cons_of_neg (by rw [hc]; decide), char?]
  split_ifs <;> rfl

theorem firstBlock?_eq_some_iff {text : List Char} :
    firstBlock? text = some body ↔ ∃ gap rest, OpensBlock gap body rest text := by
  constructor
  · intro h
    rcases exists_stop text with hall | ⟨gap, c, cs, rfl, hgap, hc⟩
    · rw [firstBlock?_eq_none hall] at h
      exact absurd h (Option.some_ne_none body).symm
    · rw [firstBlock?_append hgap hc] at h
      split_ifs at h with hopen
      obtain ⟨⟨rest, rfl⟩, hbalanced⟩ := blockBody?_zero_eq_some_iff.mp h
      rw [hopen]
      exact ⟨gap, rest, rfl, fun d hd => isBetween_iff.mp (hgap d hd), hbalanced⟩
  · rintro ⟨gap, rest, rfl, hgap, hbody⟩
    rw [firstBlock?_append (fun d hd => isBetween_iff.mpr (hgap d hd)) rfl, if_pos rfl,
      blockBody?_zero_eq_some_iff]
    exact ⟨⟨rest, rfl⟩, hbody⟩

/-! ### Cutting by byte offsets -/

theorem slice?_left (a b : List Char) :
    slice? (byteLength a) (byteLength (a ++ b)) (a ++ b) = some b := by
  have h := slice?_eq_some a b []
  rwa [List.append_nil] at h

/-- The block that opens behind `gap` is cut out where its braces are. -/
theorem slice?_inside (gap body rest : List Char) :
    slice? (byteLength gap + 1) (byteLength gap + (1 + byteLength body))
      (gap ++ '\x7b' :: (body ++ '\x7d' :: rest)) = some body := by
  have hopen : byteLength (gap ++ ['\x7b']) = byteLength gap + 1 := byteLength_append gap _
  have h := slice?_eq_some (gap ++ ['\x7b']) body ('\x7d' :: rest)
  rw [byteLength_append _ body, hopen, Nat.add_assoc] at h
  simpa only [List.append_assoc, List.cons_append, List.nil_append] using h

/-- From an offset where a character starts, the block is found as in the text from there on, and
nothing is missed on the way. -/
theorem blockAfter?_append (before rest : List Char) :
    blockAfter? (before ++ rest) (byteLength before) = some (firstBlock? rest) := by
  have hstop : ∀ gap : List Char, (∀ c ∈ gap, isBetween c = true) →
      ∀ c ∈ gap, (c == '\x7b' || c == ';') = false := by
    intro gap hgap c hc
    rw [stops_eq, hgap c hc]
    rfl
  rw [blockAfter?, slice?_left before rest]
  simp only [Option.bind_eq_bind, Option.bind_some]
  rcases exists_stop rest with hall | ⟨gap, c, cs, rfl, hgap, hc⟩
  · rw [offsetOf?_eq_none (hstop rest hall), firstBlock?_eq_none hall]
  · have hc' : (c == '\x7b' || c == ';') = true := by
      rw [stops_eq, hc]
      rfl
    rw [offsetOf?_append (hstop gap hgap) hc', firstBlock?_append hgap hc]
    simp only [slice?_left gap (c :: cs), Option.bind_some]
    by_cases hopen : c = '\x7b'
    · subst hopen
      have hclosing : closingBrace? 0 0 ('\x7b' :: cs) =
          some ((blockBody? 0 cs).map fun body => 1 + byteLength body) := closingBrace?_eq 0 1 cs
      have hhead : ¬ (('\x7b' :: cs).head? == some ';') = true := Bool.false_ne_true
      rw [if_neg hhead, if_pos rfl, hclosing, Option.bind_some]
      cases hbody : blockBody? 0 cs with
      | none => rfl
      | some body =>
        obtain ⟨⟨rest, rfl⟩, -⟩ := blockBody?_zero_eq_some_iff.mp hbody
        rw [Option.map_some]
        dsimp only
        rw [slice?_inside gap body rest, Option.map_some]
    · have hend : c = ';' := by simpa [isBetween, hopen] using hc
      subst hend
      rw [if_neg hopen]
      rfl

end SnippetLint.Smell
