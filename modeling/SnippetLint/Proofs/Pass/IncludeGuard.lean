import SnippetLint.Pass.Smell
import SnippetLint.Proofs.Source.Remasking
import SnippetLint.Proofs.Text.Readers
import SnippetLint.Proofs.Text.Trimming

/-! What the smells of a text depend on. All of them but one are patterns over the masked text.
The search for an include guard reads the text as it stands, so that what a comment says can count
as a guard. -/
namespace SnippetLint.Smell
open Source Text

variable {cs rest code line : List Char} {d : Diagnostic}

/-- Blanks, `#`, blanks and the text of a directive. -/
def IsDirective (cs text : List Char) : Prop :=
  ∃ b₁ b₂, cs = b₁ ++ '#' :: (b₂ ++ text) ∧ (∀ c ∈ b₁, isBlank c = true) ∧
    ∀ c ∈ b₂, isBlank c = true

/-- The line includes something. -/
def IsInclude (line : List Char) : Prop :=
  ∃ rest, IsDirective line ("include".toList ++ rest) ∧ wordEnd rest = true

/-- What the directive of a guard begins with: `ifndef`, or `pragma once` with any blanks in it. -/
inductive IsGuardStart : List Char → Prop
  | ifndef : IsGuardStart "ifndef".toList
  | pragmaOnce {blanks : List Char} (hne : blanks ≠ []) (h : ∀ c ∈ blanks, isBlank c = true) :
      IsGuardStart ("pragma".toList ++ (blanks ++ "once".toList))

/-- A guard stands at the start of a line. -/
def HasGuard (code : List Char) : Prop :=
  ∃ u t start rest, code = u ++ t ∧ (∀ c ∈ u.getLast?, c = '\n') ∧ IsGuardStart start ∧
    IsDirective t (start ++ rest) ∧ wordEnd rest = true

theorem directive?_eq_some_iff : directive? cs = some rest ↔
    IsDirective cs rest ∧ ∀ c ∈ rest.head?, isBlank c = false := by
  simp only [directive?, Option.map_eq_some_iff, char?_eq_some_iff, skipBlanks_eq_iff]
  constructor
  · rintro ⟨afterHash, ⟨b₁, rfl, hb₁, -⟩, b₂, rfl, hb₂, hr⟩
    exact ⟨⟨b₁, b₂, rfl, hb₁, hb₂⟩, hr⟩
  · rintro ⟨⟨b₁, b₂, rfl, hb₁, hb₂⟩, hr⟩
    have hhash : ∀ c ∈ ('#' :: (b₂ ++ rest)).head?, isBlank c = false := by
      rintro c ⟨⟩
      decide
    exact ⟨_, ⟨b₁, rfl, hb₁, hhash⟩, b₂, rfl, hb₂, hr⟩

/-- The directive begins with a letter, so that no blank is left before it. -/
theorem isInclude_iff : isInclude line = true ↔ IsInclude line := by
  simp only [isInclude, Option.isSome_iff_exists, IsInclude, Option.bind_eq_some_iff,
    directive?_eq_some_iff, wholeWord?_eq_some_iff]
  constructor
  · rintro ⟨rest, text, ⟨hd, -⟩, rfl, -, he⟩
    exact ⟨rest, hd, he⟩
  · rintro ⟨rest, hd, he⟩
    have hfirst : ∀ c ∈ ("include".toList ++ rest).head?, isBlank c = false := by
      rintro c ⟨⟩
      decide
    exact ⟨rest, _, ⟨hd, hfirst⟩, rfl, rfl, he⟩

theorem isGuard_iff {before : Option Char} : isGuard before cs = true ↔
    (∀ c ∈ before, c = '\n') ∧
      ∃ start rest, IsGuardStart start ∧ IsDirective cs (start ++ rest) ∧ wordEnd rest = true := by
  have hbefore : (before == none || before == some '\n') = true ↔ ∀ c ∈ before, c = '\n' := by
    cases before <;> simp
  rw [isGuard, Bool.and_eq_true, hbefore, Option.any_eq_true]
  refine and_congr_right fun _ => ?_
  constructor
  · rintro ⟨text, hread, h⟩
    obtain ⟨hd, -⟩ := directive?_eq_some_iff.mp hread
    rcases (Bool.or_eq_true _ _).mp h with h | h
    · obtain ⟨rest, hword⟩ := Option.isSome_iff_exists.mp h
      obtain ⟨rfl, -, he⟩ := wholeWord?_eq_some_iff.mp hword
      exact ⟨_, rest, .ifndef, hd, he⟩
    · obtain ⟨afterBlanks, hblanks, honce⟩ := (Option.any_eq_true ..).mp h
      obtain ⟨afterPragma, hpragma, hskip⟩ := Option.bind_eq_some_iff.mp hblanks
      obtain ⟨rest, hword⟩ := Option.isSome_iff_exists.mp honce
      obtain ⟨rfl, -, -⟩ := wholeWord?_eq_some_iff.mp hpragma
      obtain ⟨blanks, rfl, hne, hall, -⟩ := skipBlanks1?_eq_some_iff.mp hskip
      obtain ⟨rfl, -, he⟩ := wholeWord?_eq_some_iff.mp hword
      exact ⟨_, rest, .pragmaOnce hne hall, by simpa using hd, he⟩
  · rintro ⟨start, rest, hs, hd, he⟩
    have hhead : ∀ c ∈ (start ++ rest).head?, isBlank c = false := by
      cases hs <;> rintro c ⟨⟩ <;> decide
    refine ⟨start ++ rest, directive?_eq_some_iff.mpr ⟨hd, hhead⟩, ?_⟩
    cases hs with
    | ifndef => rw [wholeWord?_append rfl he, Option.isSome_some, Bool.true_or]
    | @pragmaOnce blanks hne hall =>
      have honce : ∀ c ∈ ("once".toList ++ rest).head?, isBlank c = false := by
        rintro c ⟨⟩
        decide
      have hend : wordEnd (blanks ++ ("once".toList ++ rest)) = true :=
        wordEnd_append hall fun hnil => absurd hnil hne
      rw [List.append_assoc, List.append_assoc, wholeWord?_append rfl hend, Option.bind_some,
        skipBlanks1?_append hne hall honce, Option.any_some, wholeWord?_append rfl he,
        Option.isSome_some, Bool.or_true]

theorem occurs_isGuard_iff : occurs isGuard code = true ↔ HasGuard code := by
  simp only [occurs_iff, isGuard_iff, HasGuard]
  constructor
  · rintro ⟨u, t, rfl, -, hline, start, rest, hs, hd, he⟩
    exact ⟨u, t, start, rest, rfl, hline, hs, hd, he⟩
  · rintro ⟨u, t, start, rest, rfl, hline, hs, hd, he⟩
    obtain ⟨b₁, b₂, rfl, -⟩ := id hd
    exact ⟨u, _, rfl, by simp, hline, start, rest, hs, hd, he⟩

theorem IsInclude.trim_ne_nil (h : IsInclude line) : trim line ≠ [] := by
  obtain ⟨rest, ⟨b₁, b₂, rfl, -⟩, -⟩ := h
  intro hnil
  obtain ⟨before, after, heq, hbefore, hafter⟩ := (trimmed_trim _).split
  rw [hnil, List.append_nil] at heq
  have hmem : '#' ∈ before ++ after := heq ▸ by simp
  rcases List.mem_append.mp hmem with hm | hm
  · exact absurd (hbefore '#' hm) (by decide)
  · exact absurd (hafter '#' hm) (by decide)

/-- A header is reported if its first line that is not blank is an include and no guard stands at
the start of a line. -/
theorem mem_missingGuard_iff : d ∈ missingGuard code ↔
    ¬ HasGuard code ∧ ∃ line n, (line, n) ∈ numbered code ∧ IsInclude line ∧
      (∀ earlier k, (earlier, k) ∈ numbered code → k < n → trim earlier = []) ∧
      d = .warning ⟨n, 1⟩
      "Header file might be missing include guards (#ifndef, #define, #endif or #pragma once)" := by
  have hfirst : ∀ line n, (numbered code).find? (fun p => !(trim p.1).isEmpty) =
      some (line, n) ↔ (line, n) ∈ numbered code ∧ trim line ≠ [] ∧
        ∀ earlier k, (earlier, k) ∈ numbered code → k < n → trim earlier = [] := by
    intro line n
    have h := @find?_numbered_eq_some_iff (fun line => !(trim line).isEmpty) code line n
    simpa using h
  rw [missingGuard, ← occurs_isGuard_iff]
  constructor
  · intro h
    split at h
    · next line n hfound =>
      split_ifs at h with hif
      · rw [Bool.and_eq_true, isInclude_iff, Bool.not_eq_true'] at hif
        obtain ⟨hline, -, hblank⟩ := (hfirst line n).mp hfound
        refine ⟨by simp [hif.2], line, n, hline, hif.1, hblank, List.mem_singleton.mp h⟩
      · exact absurd h List.not_mem_nil
    · exact absurd h List.not_mem_nil
  · rintro ⟨hno, line, n, hline, hinclude, hblank, rfl⟩
    have hfound := (hfirst line n).mpr ⟨hline, hinclude.trim_ne_nil, hblank⟩
    have hboth : (isInclude line && !occurs isGuard code) = true := by
      rw [Bool.and_eq_true, isInclude_iff, Bool.not_eq_true', ← Bool.not_eq_true]
      exact ⟨hinclude, hno⟩
    split
    · next line' n' hfound' =>
      obtain ⟨rfl, rfl⟩ := Prod.mk.inj (Option.some.inj (hfound.symm.trans hfound'))
      rw [if_pos hboth]
      exact List.mem_singleton_self _
    · next hnone => exact absurd (hfound.symm.trans hnone) (Option.some_ne_none _)

/-- The smells of a masked text. -/
def ofMasked (masked : List Char) : List Diagnostic :=
  usingNamespaceStd masked ++ mainWithoutReturn masked ++ newWithoutDelete masked ++
    arrowNearNull masked

theorem find_eq (code : List Char) : find code = missingGuard code ++ ofMasked (mask code) := by
  unfold find ofMasked
  simp only [List.append_assoc]

theorem missingGuard_eq_nil_or_singleton (code : List Char) :
    missingGuard code = [] ∨ ∃ d, missingGuard code = [d] := by
  unfold missingGuard
  split
  · split
    · exact .inr ⟨_, rfl⟩
    · exact .inl rfl
  · exact .inl rfl

/-- Two texts that are masked alike have the same smells if the search for an include guard says
the same of both; a smell of one alone is the one that this search gives. -/
theorem find_eq_iff_of_mask_eq {a b : List Char} (h : mask a = mask b) :
    (find a = find b ↔ missingGuard a = missingGuard b) ∧
      ∀ d ∈ find a, d ∉ find b → missingGuard a = [d] := by
  rw [find_eq, find_eq, h]
  refine ⟨List.append_left_inj _, fun d hd hn => ?_⟩
  have hguard : d ∈ missingGuard a :=
    (List.mem_append.mp hd).resolve_right fun hm => hn (List.mem_append_right _ hm)
  rcases missingGuard_eq_nil_or_singleton a with hnil | ⟨e, he⟩
  · rw [hnil] at hguard
    exact absurd hguard List.not_mem_nil
  · rw [he, List.mem_singleton] at hguard
    rw [he, hguard]

namespace Sample

/-- A header whose only guard stands in a comment. -/
def commentedGuard : List Char := "#include <a.h>\n/*\n#pragma once\n*/\nint x;\n".toList

theorem find_commentedGuard :
    mask commentedGuard = mask (mask commentedGuard) ∧
      ((find commentedGuard = find (mask commentedGuard) ↔
          missingGuard commentedGuard = missingGuard (mask commentedGuard)) ∧
        ∀ d ∈ find commentedGuard, d ∉ find (mask commentedGuard) →
          missingGuard commentedGuard = [d]) :=
  ⟨(mask_mask _).symm, find_eq_iff_of_mask_eq (mask_mask _).symm⟩

/-- The guard in the comment counts, and the blanks in its place do not. -/
theorem not_find_eq_of_mask_eq : ¬ ∀ a b, mask a = mask b → find a = find b := by
  intro h
  have hfind := h commentedGuard (mask commentedGuard) (mask_mask _).symm
  exact absurd hfind (by decide +kernel)

end Sample
end SnippetLint.Smell
