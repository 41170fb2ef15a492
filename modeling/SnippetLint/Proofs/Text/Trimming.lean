import Mathlib.Data.List.DropRight
import SnippetLint.Text.Search

/-! Trimming takes the blanks at the ends of a text and nothing else. -/
namespace SnippetLint.Text

variable {text blanks : List Char}

theorem trimEnd_eq_rdropWhile (text : List Char) : trimEnd text = text.rdropWhile isBlank := rfl

theorem trimEnd_append_blanks (h : ∀ c ∈ blanks, isBlank c = true)
    (hl : ∀ c ∈ text.getLast?, isBlank c = false) : trimEnd (text ++ blanks) = text := by
  induction blanks using List.reverseRecOn with
  | nil =>
    rw [List.append_nil, trimEnd_eq_rdropWhile, List.rdropWhile_eq_self_iff]
    intro hne hb
    rw [hl _ (List.getLast?_eq_some_getLast hne)] at hb
    exact absurd hb (by decide)
  | append_singleton bs b ih =>
    rw [← List.append_assoc, trimEnd_eq_rdropWhile,
      List.rdropWhile_concat_pos isBlank _ b (h b (by simp))]
    exact ih fun c hc => h c (List.mem_append_left _ hc)

/-- What is cut off at the end. -/
theorem exists_trimEnd_append (text : List Char) :
    ∃ blanks, text = trimEnd text ++ blanks ∧ ∀ c ∈ blanks, isBlank c = true := by
  refine ⟨text.rtakeWhile isBlank, (List.rdropWhile_append_rtakeWhile ..).symm, ?_⟩
  intro c hc
  exact List.mem_rtakeWhile_imp hc

theorem mem_of_mem_skipBlanks {c : Char} (h : c ∈ skipBlanks text) : c ∈ text :=
  (List.dropWhile_suffix isBlank).subset h

theorem mem_of_mem_trim {c : Char} (h : c ∈ trim text) : c ∈ text := by
  have hend := (List.dropWhile_suffix isBlank).subset (List.mem_reverse.mp h)
  exact mem_of_mem_skipBlanks (List.mem_reverse.mp hend)

theorem isBlank_of_getLast?_trimEnd {c : Char} (h : c ∈ (trimEnd text).getLast?) :
    isBlank c = false := by
  have hne : text.rdropWhile isBlank ≠ [] := by
    intro hnil
    rw [trimEnd_eq_rdropWhile, hnil] at h
    exact absurd h (Option.not_mem_none c)
  have hlast := List.rdropWhile_last_not isBlank text hne
  rw [trimEnd_eq_rdropWhile, List.getLast?_eq_some_getLast hne] at h
  rw [Option.some.inj h] at hlast
  simpa using hlast

theorem isBlank_of_head?_trim {c : Char} (h : c ∈ (trim text).head?) : isBlank c = false := by
  have hdrop := List.head?_dropWhile_not isBlank text
  obtain ⟨blanks, hb, -⟩ := exists_trimEnd_append (skipBlanks text)
  obtain ⟨cs, hc⟩ : ∃ cs, trim text = c :: cs := List.head?_eq_some_iff.mp h
  have hskip : skipBlanks text = c :: (cs ++ blanks) := by
    rw [hb]
    exact congrArg (· ++ blanks) hc
  rw [show text.dropWhile isBlank = _ from hskip] at hdrop
  simpa using hdrop

/-- The text without the blanks at its ends. -/
structure Trimmed (text body : List Char) : Prop where
  split : ∃ before after, text = before ++ body ++ after ∧
    (∀ c ∈ before, isBlank c = true) ∧ ∀ c ∈ after, isBlank c = true
  first : ∀ c ∈ body.head?, isBlank c = false
  last : ∀ c ∈ body.getLast?, isBlank c = false

theorem trimmed_trim (text : List Char) : Trimmed text (trim text) := by
  obtain ⟨after, heq, hafter⟩ := exists_trimEnd_append (skipBlanks text)
  refine ⟨⟨text.takeWhile isBlank, after, ?_, fun c hc => List.mem_takeWhile_imp hc, hafter⟩,
    fun c hc => isBlank_of_head?_trim hc, fun c hc => isBlank_of_getLast?_trimEnd hc⟩
  calc
    text = text.takeWhile isBlank ++ skipBlanks text :=
      (List.takeWhile_append_dropWhile (p := isBlank) (l := text)).symm
    _ = text.takeWhile isBlank ++ trim text ++ after := by
      rw [List.append_assoc]
      exact congrArg _ heq

/-- What is left of a text after its first blanks ends where the text does. -/
theorem exists_trimEnd_eq (h : trim text ≠ []) :
    ∃ blanks, trimEnd text = blanks ++ trim text ∧ ∀ c ∈ blanks, isBlank c = true := by
  obtain ⟨blanks, hb, hall⟩ := exists_trimEnd_append (skipBlanks text)
  refine ⟨text.takeWhile isBlank, ?_, fun c hc => List.mem_takeWhile_imp hc⟩
  have htext : text = text.takeWhile isBlank ++ trim text ++ blanks := by
    rw [List.append_assoc]
    conv_lhs => rw [← List.takeWhile_append_dropWhile (p := isBlank) (l := text)]
    exact congrArg _ hb
  have hlast : ∀ c ∈ (text.takeWhile isBlank ++ trim text).getLast?, isBlank c = false := by
    intro c hc
    rw [List.getLast?_append_of_ne_nil _ h] at hc
    exact isBlank_of_getLast?_trimEnd hc
  conv_lhs => rw [htext]
  exact trimEnd_append_blanks hall hlast

/-- What comes after the last character that is no blank. -/
theorem trim_append (h : trim text ≠ []) (tail : List Char) :
    trim (trimEnd text ++ tail) = trimEnd (trim text ++ tail) := by
  obtain ⟨first, hfirst, hall⟩ := exists_trimEnd_eq h
  obtain ⟨d, ds, hd⟩ := List.exists_cons_of_ne_nil h
  have hsolid : isBlank d = false := isBlank_of_head?_trim (by rw [hd]; rfl)
  have hskip : skipBlanks (trimEnd text ++ tail) = trim text ++ tail := by
    rw [hfirst, List.append_assoc, skipBlanks, List.dropWhile_append_of_pos hall, hd,
      List.cons_append, List.dropWhile_cons, if_neg (by rw [hsolid]; decide)]
  rw [trim, hskip]

theorem trim_append_cons (h : trim text ≠ []) {c : Char} (hc : isBlank c = false)
    (hb : ∀ d ∈ blanks, isBlank d = true) :
    trim (trimEnd text ++ c :: blanks) = trim text ++ [c] := by
  rw [trim_append h, List.append_cons]
  apply trimEnd_append_blanks hb
  intro e he
  rw [List.getLast?_concat] at he
  rwa [← Option.some.inj he]

theorem trim_append_blanks (h : trim text ≠ []) (hb : ∀ d ∈ blanks, isBlank d = true) :
    trim (trimEnd text ++ blanks) = trim text := by
  rw [trim_append h]
  exact trimEnd_append_blanks hb fun _ => isBlank_of_getLast?_trimEnd

end SnippetLint.Text
