import SnippetLint.Pass.Brackets
import SnippetLint.Pass.CDialect
import SnippetLint.Pass.Semicolon
import SnippetLint.Pass.Smell
import SnippetLint.Pass.Spelling
import SnippetLint.Pass.UndefinedName
import SnippetLint.Proofs.Source.Masking
import SnippetLint.Proofs.Text.Place

/-! Every pass over a text points at positions that the text has, though most of them read the
masked text and each finds its positions in its own way. -/
namespace SnippetLint
open Text

/-- Every diagnostic of the list is at a position of the code. -/
def AllReal (code : List Char) (ds : List Diagnostic) : Prop := ∀ d ∈ ds, d.position.IsReal code

theorem AllReal.nil (code : List Char) : AllReal code [] := fun _ h => absurd h List.not_mem_nil

theorem AllReal.append {code : List Char} {ds es : List Diagnostic} (hd : AllReal code ds)
    (he : AllReal code es) : AllReal code (ds ++ es) := by
  intro d h
  rcases List.mem_append.mp h with h | h
  · exact hd d h
  · exact he d h

theorem allReal_mask {code : List Char} {ds : List Diagnostic} :
    AllReal (Source.mask code) ds ↔ AllReal code ds := by
  unfold AllReal
  simp only [Source.isReal_mask]

/-- The position is on the line, whose number is `n`. -/
structure OnLine (n : ℕ) (line : List Char) (p : Position) : Prop where
  line_eq : p.line = n
  column_pos : 1 ≤ p.column
  column_le : p.column ≤ line.length + 1

theorem onLine_of_lt {n place : ℕ} {line : List Char} (h : place < line.length) :
    OnLine n line ⟨n, place + 1⟩ :=
  ⟨rfl, Nat.succ_pos _, Nat.succ_le_succ (Nat.le_of_lt h)⟩

theorem onLine_of_mem_words {n : ℕ} {line : List Char} {w : Word} (h : w ∈ words line) :
    OnLine n line ⟨n, w.column⟩ := by
  have hc := column_of_mem_words h
  exact ⟨rfl, hc.1, Nat.le_succ_of_le hc.2⟩

theorem allReal_flatMap {code : List Char} {f : List Char × ℕ → List Diagnostic}
    (h : ∀ line n, ∀ d ∈ f (line, n), OnLine n line d.position) :
    AllReal code ((numbered code).flatMap f) := by
  intro d hd
  obtain ⟨⟨line, n⟩, hm, hf⟩ := List.mem_flatMap.mp hd
  obtain ⟨rfl, hc, hl⟩ := h line n d hf
  exact Position.isReal_of_mem_numbered hm hc hl

theorem allReal_filterMap {code : List Char} {f : List Char × ℕ → Option Diagnostic}
    (h : ∀ line n, ∀ d ∈ f (line, n), OnLine n line d.position) :
    AllReal code ((numbered code).filterMap f) := by
  intro d hd
  obtain ⟨⟨line, n⟩, hm, hf⟩ := List.mem_filterMap.mp hd
  obtain ⟨rfl, hc, hl⟩ := h line n d hf
  exact Position.isReal_of_mem_numbered hm hc hl

/-- The position is on one of the lines, of which the first has the number `n`. -/
def OnLines (n : ℕ) (ls : List (List Char)) (p : Position) : Prop :=
  ∃ i line, ls[i]? = some line ∧ OnLine (n + i) line p

theorem OnLines.head {n column : ℕ} {line : List Char} {ls : List (List Char)} (hc : 1 ≤ column)
    (hl : column ≤ line.length + 1) : OnLines n (line :: ls) ⟨n, column⟩ :=
  ⟨0, line, rfl, rfl, hc, hl⟩

theorem OnLines.tail {n : ℕ} {line : List Char} {ls : List (List Char)} {p : Position}
    (h : OnLines (n + 1) ls p) : OnLines n (line :: ls) p := by
  obtain ⟨i, l, hi, hp, hc, hl⟩ := h
  exact ⟨i + 1, l, hi, by omega, hc, hl⟩

theorem OnLines.isReal {text : List Char} {p : Position} (h : OnLines 1 (lines text) p) :
    p.IsReal text := by
  obtain ⟨i, line, hi, hp, hc, hl⟩ := h
  have hn : p.line - 1 = i := by omega
  exact Position.isReal_of_getElem? (by omega) (hn ▸ hi) hc hl

theorem Bracket.allReal_scanFrom (b : Bracket) (before cs : List Char) {opens : List Position}
    (ho : ∀ p ∈ opens, p.IsReal (before ++ cs)) :
    AllReal (before ++ cs) (b.scanFrom (.after before) opens cs) := by
  have hhere := Position.isReal_after before cs
  induction cs generalizing before opens with
  | nil =>
    intro d hd
    obtain ⟨p, hp, rfl⟩ := List.mem_map.mp hd
    exact ho p (List.mem_reverse.mp hp)
  | cons c cs ih =>
    have hs : before ++ c :: cs = before ++ [c] ++ cs := by simp
    have ih' := fun opens => @ih (before ++ [c]) opens
    rw [← hs, Position.after_append_singleton] at ih'
    have hnext := Position.isReal_after (before ++ [c]) cs
    rw [← hs, Position.after_append_singleton] at hnext
    unfold scanFrom
    split_ifs with h₁ h₂
    · refine ih' _ (fun p hp => ?_) hnext
      rcases List.mem_cons.mp hp with rfl | hp
      · exact hhere
      · exact ho p hp
    · cases opens with
      | nil =>
        intro d hd
        rcases List.mem_cons.mp hd with rfl | hd
        · exact hhere
        · exact ih' [] ho hnext d hd
      | cons p outer => exact ih' outer (fun q hq => ho q (List.mem_cons_of_mem p hq)) hnext
    · exact ih' opens ho hnext

theorem Bracket.allReal_scan (code : List Char) (b : Bracket) : AllReal code (scan code b) :=
  allReal_scanFrom b [] code fun _ h => absurd h List.not_mem_nil

theorem Spelling.allReal_typos (table : List Spelling) (code : List Char) :
    AllReal code (typos table code) := by
  apply allReal_mask.mp
  apply allReal_flatMap
  intro line n d hd
  obtain ⟨s, -, hd⟩ := List.mem_flatMap.mp hd
  obtain ⟨v, -, hd⟩ := List.mem_flatMap.mp hd
  obtain ⟨w, hw, rfl⟩ := List.mem_map.mp hd
  exact onLine_of_mem_words (List.mem_filter.mp hw).1

theorem UndefinedName.allReal_find (code : List Char) : AllReal code (find code) := by
  apply allReal_mask.mp
  apply allReal_flatMap
  intro line n d hd
  obtain ⟨w, hw, rfl⟩ := List.mem_map.mp hd
  exact onLine_of_mem_words (List.mem_filter.mp hw).1

theorem length_trimEnd_le (line : List Char) : (trimEnd line).length ≤ line.length := by
  unfold trimEnd
  rw [List.length_reverse]
  exact Nat.le_trans (List.dropWhile_suffix _).length_le (Nat.le_of_eq List.length_reverse)

theorem Semicolon.allReal_missingInScript (code : List Char) :
    AllReal code (missingInScript code) := by
  apply allReal_mask.mp
  apply allReal_filterMap
  intro line n d hd
  have hl := length_trimEnd_le line
  dsimp only at hd
  split_ifs at hd
  · exact absurd hd (Option.not_mem_none d)
  · obtain rfl := Option.some.inj hd
    exact ⟨rfl, Nat.succ_pos _, Nat.succ_le_succ hl⟩
  · exact absurd hd (Option.not_mem_none d)

theorem Semicolon.onLines_missingInBlockFrom (n : ℕ) (ls : List (List Char)) :
    ∀ d ∈ missingInBlockFrom n ls, OnLines n ls d.position := by
  induction ls generalizing n with
  | nil => exact fun d h => absurd h List.not_mem_nil
  | cons line ls ih =>
    have hrest : ∀ d ∈ missingInBlockFrom (n + 1) ls, OnLines n (line :: ls) d.position :=
      fun d h => (ih (n + 1) d h).tail
    intro d hd
    unfold missingInBlockFrom at hd
    dsimp only at hd
    split_ifs at hd
    · rcases List.mem_cons.mp hd with rfl | hd
      · exact .head (Nat.succ_pos _) (Nat.succ_le_succ (length_trimEnd_le line))
      · exact hrest d hd
    · exact hrest d hd

theorem Semicolon.allReal_missingInBlock (code : List Char) :
    AllReal code (missingInBlock code) :=
  allReal_mask.mp fun d hd => (onLines_missingInBlockFrom 1 _ d hd).isReal

namespace Smell

theorem allReal_missingGuard (code : List Char) : AllReal code (missingGuard code) := by
  intro d hd
  unfold missingGuard at hd
  split at hd
  · rename_i line n hf
    split_ifs at hd
    · obtain rfl := List.mem_singleton.mp hd
      exact Position.isReal_of_mem_numbered (List.mem_of_find?_eq_some hf) (Nat.le_refl 1)
        (Nat.succ_pos _)
    · exact absurd hd List.not_mem_nil
  · exact absurd hd List.not_mem_nil

theorem allReal_usingNamespaceStd (masked : List Char) :
    AllReal masked (usingNamespaceStd masked) := by
  unfold usingNamespaceStd
  split_ifs
  · apply allReal_filterMap
    intro line n d hd
    obtain ⟨⟨place, u⟩, hf, rfl⟩ := Option.map_eq_some_iff.mp hd
    exact onLine_of_lt (place_of_find? hf)
  · exact .nil masked

theorem allReal_mainWithoutReturn (masked : List Char) :
    AllReal masked (mainWithoutReturn masked) := by
  intro d hd
  obtain ⟨⟨place, rest⟩, -, hd⟩ := List.mem_filterMap.mp hd
  have hp := Position.isReal_after (masked.take place) (masked.drop place)
  rw [List.take_append_drop] at hp
  dsimp only at hd
  split at hd
  · split_ifs at hd
    obtain rfl := Option.some.inj hd
    exact hp
  · exact absurd hd (by simp)

theorem allReal_newWithoutDelete (masked : List Char) :
    AllReal masked (newWithoutDelete masked) := by
  unfold newWithoutDelete
  split_ifs
  · exact .nil masked
  · apply allReal_flatMap
    intro line n d hd
    obtain ⟨⟨place, u⟩, hf, rfl⟩ := List.mem_map.mp hd
    exact onLine_of_lt (place_of_mem_findAll hf)

theorem allReal_arrowNearNull (masked : List Char) : AllReal masked (arrowNearNull masked) := by
  apply allReal_filterMap
  intro line n d hd
  dsimp only at hd
  split_ifs at hd
  · obtain ⟨⟨place, u⟩, hf, rfl⟩ := Option.map_eq_some_iff.mp hd
    exact onLine_of_lt (place_of_find? hf)
  · exact absurd hd (Option.not_mem_none d)

theorem allReal_find (code : List Char) : AllReal code (find code) :=
  ((((allReal_missingGuard code).append (allReal_mask.mp (allReal_usingNamespaceStd _))).append
    (allReal_mask.mp (allReal_mainWithoutReturn _))).append
    (allReal_mask.mp (allReal_newWithoutDelete _))).append
    (allReal_mask.mp (allReal_arrowNearNull _))

end Smell

namespace CDialect

theorem allReal_cppKeywordUses (masked : List Char) :
    AllReal masked (cppKeywordUses masked) := by
  apply allReal_flatMap
  intro line n d hd
  obtain ⟨w, hw, rfl⟩ := List.mem_map.mp hd
  exact onLine_of_mem_words (List.mem_filter.mp hw).1

theorem onLines_lateDeclarationsFrom (previous : Option (List Char)) (n : ℕ)
    (ls : List (List Char)) :
    ∀ d ∈ lateDeclarationsFrom previous n ls, OnLines n ls d.position := by
  induction ls generalizing previous n with
  | nil => exact fun d h => absurd h List.not_mem_nil
  | cons line ls ih =>
    have hrest : ∀ d ∈ lateDeclarationsFrom
        (if (trim line).isEmpty then previous else some line) (n + 1) ls,
        OnLines n (line :: ls) d.position :=
      fun d h => (ih _ (n + 1) d h).tail
    have hl : (line.takeWhile isBlank).length ≤ line.length :=
      (List.takeWhile_prefix isBlank).length_le
    intro d hd
    unfold lateDeclarationsFrom at hd
    dsimp only at hd
    by_cases h : (isDeclaration line && previous.any endsStatement) = true
    · rw [if_pos h] at hd
      rcases List.mem_cons.mp hd with rfl | hd
      · exact .head (Nat.succ_pos _) (Nat.succ_le_succ hl)
      · exact hrest d hd
    · rw [if_neg h] at hd
      exact hrest d hd

theorem position_of_missingPrototype? {declared : List String} {n : ℕ} {line : List Char}
    {d : Diagnostic} (h : missingPrototype? declared n line = some d) : d.position = ⟨n, 1⟩ := by
  unfold missingPrototype? at h
  split at h
  · dsimp only at h
    split_ifs at h
    rw [← Option.some.inj h]
    rfl
  · exact absurd h (by simp)

theorem onLines_missingPrototypesFrom (declared : List String) (n : ℕ) (ls : List (List Char)) :
    ∀ d ∈ missingPrototypesFrom declared n ls, OnLines n ls d.position := by
  induction ls generalizing declared n with
  | nil => exact fun d h => absurd h List.not_mem_nil
  | cons line ls ih =>
    intro d hd
    unfold missingPrototypesFrom at hd
    by_cases hs : line.contains ';' = true
    · rw [if_pos hs] at hd
      exact (ih _ _ d hd).tail
    · rw [if_neg hs] at hd
      rcases List.mem_append.mp hd with hd | hd
      · have hp := position_of_missingPrototype? (Option.mem_toList.mp hd)
        rw [hp]
        exact .head (Nat.le_refl 1) (Nat.succ_pos _)
      · exact (ih _ _ d hd).tail

theorem allReal_violations (code : List Char) (declarationsFirst prototypes : Bool) :
    AllReal code (violations code declarationsFirst prototypes) := by
  apply allReal_mask.mp
  have hl : AllReal (Source.mask code) (lateDeclarations (Source.mask code)) :=
    fun d hd => (onLines_lateDeclarationsFrom none 1 _ d hd).isReal
  have hp : AllReal (Source.mask code) (missingPrototypes (Source.mask code)) :=
    fun d hd => (onLines_missingPrototypesFrom [] 1 _ d hd).isReal
  refine ((allReal_cppKeywordUses _).append ?_).append ?_
  · split_ifs
    · exact hl
    · exact .nil _
  · split_ifs
    · exact hp
    · exact .nil _

theorem mem_of_mem_firstOfLines {last : Option ℕ} {ps : List Position} {p : Position}
    (h : p ∈ firstOfLines last ps) : p ∈ ps := by
  induction ps generalizing last with
  | nil => exact h
  | cons q ps ih =>
    unfold firstOfLines at h
    split_ifs at h
    · exact List.mem_cons_of_mem q (ih h)
    · rcases List.mem_cons.mp h with rfl | h
      · exact List.mem_cons_self
      · exact List.mem_cons_of_mem q (ih h)

theorem allReal_lineComments (code : List Char) : AllReal code (lineComments code) := by
  intro d hd
  obtain ⟨p, hp, rfl⟩ := List.mem_map.mp hd
  obtain ⟨offset, -, rfl⟩ := List.mem_map.mp (mem_of_mem_firstOfLines hp)
  exact Position.isReal_ofByte code offset

end CDialect
end SnippetLint
