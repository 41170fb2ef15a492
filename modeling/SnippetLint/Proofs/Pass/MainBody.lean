import SnippetLint.Proofs.Pass.Blocks
import SnippetLint.Proofs.Text.Offsets

/-! The body of each `main` of a text is looked at, and nothing else is: the ones that are reported
are those with a body that returns nothing. -/
namespace SnippetLint.Smell
open Text

variable {masked head rest before : List Char}

/-- `int main(` with any blanks in it. -/
def IsMainHead (head : List Char) : Prop :=
  ∃ b₁ b₂, head = "int".toList ++ (b₁ ++ ("main".toList ++ (b₂ ++ ['(']))) ∧ b₁ ≠ [] ∧
    (∀ c ∈ b₁, isBlank c = true) ∧ ∀ c ∈ b₂, isBlank c = true

theorem toList_int : "int".toList = ['i', 'n', 't'] := by decide

theorem toList_main : "main".toList = ['m', 'a', 'i', 'n'] := by decide

theorem exists_of_mainHead? {last : Option Char} {t found : List Char}
    (h : mainHead? last t = some (found, rest)) :
    found = rest ∧ wordStart last = true ∧ ∃ head, IsMainHead head ∧ t = head ++ rest := by
  obtain ⟨afterInt, hint, h⟩ := Option.bind_eq_some_iff.mp h
  obtain ⟨afterBlanks, hblanks, h⟩ := Option.bind_eq_some_iff.mp h
  obtain ⟨afterMain, hmain, h⟩ := Option.bind_eq_some_iff.mp h
  obtain ⟨afterOpen, hopen, h⟩ := Option.bind_eq_some_iff.mp h
  obtain ⟨rfl, rfl⟩ := Prod.mk.inj (Option.some.inj h)
  obtain ⟨rfl, hstart, -⟩ := wholeWord?_eq_some_iff.mp hint
  obtain ⟨b₁, rfl, hne, hb₁, -⟩ := skipBlanks1?_eq_some_iff.mp hblanks
  obtain ⟨rfl, -⟩ := wholeWord?_eq_some_iff.mp hmain
  obtain ⟨b₂, hb, hb₂⟩ := exists_append_skipBlanks afterMain
  rw [char?_eq_some_iff.mp hopen] at hb
  refine ⟨rfl, hstart, _, ⟨b₁, b₂, rfl, hne, hb₁, hb₂⟩, ?_⟩
  rw [hb]
  simp

theorem mainHead?_append {last : Option Char} (hs : wordStart last = true) (h : IsMainHead head)
    (rest : List Char) : mainHead? last (head ++ rest) = some (rest, rest) := by
  obtain ⟨b₁, b₂, rfl, hne, hb₁, hb₂⟩ := h
  have hmain : wordEnd (b₂ ++ '(' :: rest) = true :=
    wordEnd_append hb₂ fun _ => rfl
  have hint : wordEnd (b₁ ++ ("main".toList ++ (b₂ ++ '(' :: rest))) = true :=
    wordEnd_append hb₁ fun hnil => absurd hnil hne
  have hblank : ∀ c ∈ ("main".toList ++ (b₂ ++ '(' :: rest)).head?, isBlank c = false := by
    rintro c ⟨⟩
    decide
  have hopen : ∀ c ∈ ('(' :: rest).head?, isBlank c = false := by
    rintro c ⟨⟩
    decide
  have hnone : wordStart none = true := rfl
  have hchar : char? '(' ('(' :: rest) = some rest := by rw [char?, if_pos rfl]
  simp only [List.append_assoc, List.singleton_append, mainHead?, wholeWord?_append hs hint,
    skipBlanks1?_append hne hb₁ hblank, wholeWord?_append hnone hmain, skipBlanks_append hb₂ hopen,
    hchar, Option.bind_eq_bind, Option.bind_some]

/-- After its first character the only `i` of `int main(` is that of `main`. -/
theorem IsMainHead.eq_of_append_cons {u y : List Char} (h : IsMainHead (u ++ 'i' :: y))
    (hu : u ≠ []) : ∃ b₂, y = 'n' :: (b₂ ++ ['(']) ∧ ∀ c ∈ b₂, isBlank c = true := by
  obtain ⟨b₁, b₂, hhead, -, hb₁, hb₂⟩ := h
  obtain ⟨c, u, rfl⟩ := List.exists_cons_of_ne_nil hu
  have hblank : ∀ b : List Char, (∀ c ∈ b, isBlank c = true) → 'i' ∉ b :=
    fun b hb hi => absurd (hb 'i' hi) (by decide)
  have htail : ['n', 't'] ++ (b₁ ++ ['m', 'a']) ++ 'i' :: ('n' :: (b₂ ++ ['('])) =
      u ++ 'i' :: y := by
    rw [toList_int, toList_main] at hhead
    have heq := (List.cons.inj hhead).2
    simpa using heq.symm
  have hleft : 'i' ∉ ['n', 't'] ++ (b₁ ++ ['m', 'a']) := by simp [hblank b₁ hb₁]
  have hright : 'i' ∉ 'n' :: (b₂ ++ ['(']) := by simp [hblank b₂ hb₂]
  obtain ⟨-, -, hy⟩ := (List.append_cons_inj_of_notMem hleft hright).mp htail
  exact ⟨b₂, hy.symm, hb₂⟩

/-- No `main` starts inside of `int main(`. -/
theorem apart_mainHead? : Apart mainHead? := by
  rintro last u t found rest hu hlong hread last'
  obtain ⟨-, -, head, hhead, ht⟩ := exists_of_mainHead? hread
  rw [← Option.not_isSome_iff_eq_none]
  intro hsome
  obtain ⟨⟨found', rest'⟩, hread'⟩ := Option.isSome_iff_exists.mp hsome
  obtain ⟨-, -, -, ⟨b₁', b₂', rfl, -⟩, rfl⟩ := exists_of_mainHead? hread'
  obtain ⟨y, rfl, hy⟩ : ∃ y, head = u ++ y ∧ _ = y ++ rest := by
    rcases List.append_eq_append_iff.mp ht with ⟨y, hhead, hrest⟩ | ⟨y, -, hrest⟩
    · exact ⟨y, hhead, hrest⟩
    · rw [hrest, List.length_append] at hlong
      omega
  cases y with
  | nil =>
    rw [hy, List.nil_append] at hlong
    exact absurd hlong (Nat.lt_irrefl _)
  | cons c y =>
    rw [toList_int] at hy
    obtain ⟨rfl, hy⟩ := List.cons.inj hy
    obtain ⟨b₂, rfl, hb₂⟩ := hhead.eq_of_append_cons hu
    have hafter := (List.cons.inj (List.cons.inj hy).2).2
    -- what follows is a blank or the parenthesis, and no `t`
    cases b₂ with
    | nil => exact absurd (List.cons.inj hafter).1 (by decide)
    | cons c b₂ =>
      have hc := hb₂ c List.mem_cons_self
      rw [← (List.cons.inj hafter).1] at hc
      exact absurd hc (by decide)

/-! ### What is reported -/

/-- What is said of a `main` at a place, with the text behind its head. -/
def mainReport? (masked : List Char) : ℕ × List Char → Option Diagnostic
  | (place, rest) =>
    match firstBlock? rest with
    | some body =>
      if hasWord "return" body then none
      else some (.warning (.after (masked.take place))
        "Non-void function 'main' might be missing a return statement")
    | none => none

/-- The head of each `main` ends at a character, so its block is the first one of what follows. -/
theorem mainWithoutReturn_eq_filterMap (masked : List Char) :
    mainWithoutReturn masked = (findAll mainHead? masked).filterMap (mainReport? masked) := by
  refine List.filterMap_congr fun found hfound => ?_
  obtain ⟨place, rest⟩ := found
  obtain ⟨before, t, rest', rfl, rfl, hread⟩ := exists_read_of_mem_findAll hfound
  obtain ⟨rfl, -, head, -, rfl⟩ := exists_of_mainHead? hread
  have hoffset : byteLength (before ++ (head ++ rest)) - byteLength rest =
      byteLength (before ++ head) := by
    rw [← List.append_assoc, byteLength_append, Nat.add_sub_cancel]
  have hblock := blockAfter?_append (before ++ head) rest
  rw [List.append_assoc] at hblock
  dsimp only
  rw [hoffset, hblock]
  rfl

theorem mainReport?_eq_some_iff {place : ℕ} {d : Diagnostic} :
    mainReport? masked (place, rest) = some d ↔
      (∃ gap body after, OpensBlock gap body after rest ∧ hasWord "return" body = false) ∧
        d = .warning (.after (masked.take place))
          "Non-void function 'main' might be missing a return statement" := by
  rw [mainReport?]
  constructor
  · intro h
    split at h
    · rename_i body hbody
      obtain ⟨gap, after, hopens⟩ := firstBlock?_eq_some_iff.mp hbody
      split_ifs at h with hreturn
      exact ⟨⟨gap, body, after, hopens, Bool.eq_false_iff.mpr hreturn⟩, (Option.some.inj h).symm⟩
    · exact absurd h (Option.some_ne_none d).symm
  · rintro ⟨⟨gap, body, after, hopens, hreturn⟩, rfl⟩
    rw [firstBlock?_eq_some_iff.mpr ⟨gap, after, hopens⟩]
    dsimp only
    rw [if_neg (Bool.eq_false_iff.mp hreturn)]

theorem mem_mainWithoutReturn_iff {d : Diagnostic} :
    d ∈ mainWithoutReturn masked ↔ ∃ before head rest, masked = before ++ (head ++ rest) ∧
      IsMainHead head ∧ wordStart before.getLast? = true ∧
      (∃ gap body after, OpensBlock gap body after rest ∧ hasWord "return" body = false) ∧
      d = .warning (.after before)
        "Non-void function 'main' might be missing a return statement" := by
  rw [mainWithoutReturn_eq_filterMap, List.mem_filterMap]
  constructor
  · rintro ⟨⟨place, rest⟩, hfound, hreport⟩
    obtain ⟨before, t, rest', rfl, rfl, hread⟩ := exists_read_of_mem_findAll hfound
    obtain ⟨rfl, hstart, head, hhead, rfl⟩ := exists_of_mainHead? hread
    obtain ⟨hbody, hd⟩ := mainReport?_eq_some_iff.mp hreport
    rw [List.take_left] at hd
    exact ⟨before, head, rest, rfl, hhead, hstart, hbody, hd⟩
  · rintro ⟨before, head, rest, rfl, hhead, hstart, hbody, hd⟩
    have hread := mainHead?_append hstart hhead rest
    have hne : head ++ rest ≠ [] := by
      obtain ⟨b₁, b₂, rfl, -⟩ := hhead
      rw [toList_int]
      exact List.cons_ne_nil _ _
    refine ⟨_, mem_findAll_of_read apart_mainHead? hne hread,
      mainReport?_eq_some_iff.mpr ⟨hbody, ?_⟩⟩
    rw [List.take_left]
    exact hd

theorem pairwise_mainWithoutReturn (masked : List Char) :
    (mainWithoutReturn masked).Pairwise fun d e => d.position < e.position := by
  rw [mainWithoutReturn_eq_filterMap, List.pairwise_filterMap]
  refine (pairwise_findAll mainHead? masked).imp_of_mem ?_
  rintro ⟨m, u⟩ ⟨n, v⟩ - hn hlt d hd e he
  obtain ⟨-, rfl⟩ := mainReport?_eq_some_iff.mp hd
  obtain ⟨-, rfl⟩ := mainReport?_eq_some_iff.mp he
  have hplace := place_of_mem_findAll hn
  have hne : (masked.drop m).take (n - m) ≠ [] := by
    apply List.ne_nil_of_length_pos
    rw [List.length_take, List.length_drop]
    dsimp only at hlt
    omega
  have hafter := Position.after_lt_after_append (masked.take m) hne
  rwa [← List.take_add, Nat.add_sub_cancel' (Nat.le_of_lt hlt)] at hafter

/-- The block looked for is the one that opens first, if it is closed before the text ends and no
statement ends before it opens. Its inside is the shortest that is balanced and followed by the
brace that closes it. What is reported of `main` is decided by that inside alone, for each `main`
of the text. -/
theorem blockAfter?_cuts_out_first_block {text : List Char} {start : ℕ}
    (h : isBoundary text start = true) (masked : List Char) :
    (∃ block, blockAfter? text start = some block ∧
      ∀ body, block = some body ↔ ∃ before after gap rest,
        text = before ++ after ∧ byteLength before = start ∧ OpensBlock gap body rest after) ∧
    (∀ gap body rest after, OpensBlock gap body rest after →
      ∀ u v, body ++ '\x7d' :: rest = u ++ '\x7d' :: v → Balanced u → u = body) ∧
    (∀ d, d ∈ mainWithoutReturn masked ↔ ∃ before head rest, masked = before ++ (head ++ rest) ∧
      IsMainHead head ∧ wordStart before.getLast? = true ∧
      (∃ gap body after, OpensBlock gap body after rest ∧ hasWord "return" body = false) ∧
      d = .warning (.after before)
        "Non-void function 'main' might be missing a return statement") ∧
    (mainWithoutReturn masked).Pairwise fun d e => d.position < e.position := by
  refine ⟨?_, ?_, fun d => mem_mainWithoutReturn_iff, pairwise_mainWithoutReturn masked⟩
  · obtain ⟨before, after, rfl, rfl⟩ := isBoundary_iff.mp h
    refine ⟨_, blockAfter?_append before after, fun body => firstBlock?_eq_some_iff.trans ?_⟩
    constructor
    · rintro ⟨gap, rest, hopens⟩
      exact ⟨before, after, gap, rest, rfl, rfl, hopens⟩
    · rintro ⟨before', after', gap, rest, htext, hstart, hopens⟩
      obtain rfl := append_inj_of_byteLength htext hstart.symm
      obtain rfl := List.append_cancel_left htext
      exact ⟨gap, rest, hopens⟩
  · intro gap body rest after hopens u v huv hu
    have hbody := blockBody?_zero_eq_some_iff.mpr ⟨⟨rest, rfl⟩, hopens.body⟩
    have hshort := blockBody?_zero_eq_some_iff.mpr ⟨⟨v, huv⟩, hu⟩
    exact Option.some.inj (hshort.symm.trans hbody)

namespace Sample

/-- From behind the first character on, a block with a block in it. -/
def nested : List Char := "é() \x7bß\x7b\x7d\x7d \x7b\x7d".toList

def returnsElsewhere : List Char := "int main() \x7bß\x7d\nint f() \x7b return 1; \x7d".toList

theorem blockAfter?_nested :
    isBoundary nested 2 = true ∧ blockAfter? nested 2 = some (some "ß\x7b\x7d".toList) ∧
      .warning ⟨1, 1⟩ "Non-void function 'main' might be missing a return statement" ∈
        mainWithoutReturn returnsElsewhere := by
  have hboundary : isBoundary nested 2 = true := by decide
  obtain ⟨⟨block, hfound, hblock⟩, -, hreport, -⟩ :=
    blockAfter?_cuts_out_first_block hboundary returnsElsewhere
  have hinner : OpensBlock ['(', ')', ' '] "ß\x7b\x7d".toList " \x7b\x7d".toList
      "() \x7bß\x7b\x7d\x7d \x7b\x7d".toList := ⟨by decide, by simp, by decide⟩
  have hmain : OpensBlock [')', ' '] ['ß'] "\nint f() \x7b return 1; \x7d".toList
      ") \x7bß\x7d\nint f() \x7b return 1; \x7d".toList := ⟨by decide, by simp, by decide⟩
  have hhead : IsMainHead "int main(".toList :=
    ⟨[' '], [], by decide, by decide, List.forall_mem_singleton.mpr rfl, List.forall_mem_nil _⟩
  have hbody := (hblock _).mpr ⟨['é'], _, _, _, by decide, by decide, hinner⟩
  exact ⟨hboundary, hbody ▸ hfound, (hreport _).mpr
    ⟨[], _, _, by decide, hhead, rfl, ⟨_, _, _, hmain, by decide⟩, rfl⟩⟩

end Sample
end SnippetLint.Smell
