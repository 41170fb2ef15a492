import Mathlib.Data.List.Basic
import SnippetLint.Text.Identifier

/-! Whatever is found in a text starts at one of its characters, each find behind the one before it,
and a reader that cannot start inside of what it takes finds all that it could take. -/
namespace SnippetLint.Text

variable {α : Type}

section
variable {p : α → Bool} {run rest : List α}

/-- A run ends where the next one does not have the property. -/
theorem takeWhile_run (h : ∀ a ∈ run, p a = true) (hr : ∀ a ∈ rest.head?, p a = false) :
    (run ++ rest).takeWhile p = run := by
  rw [List.takeWhile_append_of_pos h]
  cases rest with
  | nil => rw [List.takeWhile_nil, List.append_nil]
  | cons a rest => rw [List.takeWhile_cons, hr a rfl, if_neg Bool.false_ne_true, List.append_nil]

theorem dropWhile_run (h : ∀ a ∈ run, p a = true) (hr : ∀ a ∈ rest.head?, p a = false) :
    (run ++ rest).dropWhile p = rest := by
  have hsplit := List.takeWhile_append_dropWhile (p := p) (l := run ++ rest)
  rw [takeWhile_run h hr] at hsplit
  exact List.append_cancel_left hsplit

theorem dropWhile_rest (hr : ∀ a ∈ rest.head?, p a = false) : rest.dropWhile p = rest :=
  dropWhile_run (List.forall_mem_nil _) hr

theorem forall_mem_head?_append {P : α → Prop} (h : ∀ a ∈ run, P a)
    (hr : ∀ a ∈ rest.head?, P a) : ∀ a ∈ (run ++ rest).head?, P a := by
  cases run with
  | nil => exact hr
  | cons a run =>
    rintro b ⟨⟩
    exact h a List.mem_cons_self

theorem head?_dropWhile (p : α → Bool) (as : List α) :
    ∀ a ∈ (as.dropWhile p).head?, p a = false := by
  intro a ha
  have h := List.head?_dropWhile_not p as
  rw [ha] at h
  simpa using h

end

theorem place_of_mem_findAllFrom {read : Option Char → List Char → Option (α × List Char)}
    {place skip : ℕ} {before : Option Char} {cs : List Char} {found : ℕ × α}
    (h : found ∈ findAllFrom read place before skip cs) :
    place ≤ found.1 ∧ found.1 < place + cs.length := by
  fun_induction findAllFrom read place before skip cs with
  | case1 => exact absurd h List.not_mem_nil
  | case2 place before skip c cs ih =>
    have := ih h
    rw [List.length_cons]
    omega
  | case3 place before c cs a rest hr ih =>
    rw [List.length_cons]
    rcases List.mem_cons.mp h with rfl | h
    · dsimp only
      omega
    · have := ih h
      omega
  | case4 place before c cs hr ih =>
    have := ih h
    rw [List.length_cons]
    omega

theorem place_of_mem_findAll {read : Option Char → List Char → Option (α × List Char)}
    {text : List Char} {place : ℕ} {a : α} (h : (place, a) ∈ findAll read text) :
    place < text.length := by
  have := (place_of_mem_findAllFrom h).2
  dsimp only at this
  omega

theorem pairwise_findAll (read : Option Char → List Char → Option (α × List Char))
    (text : List Char) : (findAll read text).Pairwise fun m n => m.1 < n.1 := by
  suffices h : ∀ place before skip cs,
      (findAllFrom read place before skip cs).Pairwise fun m n => m.1 < n.1 from h 0 none 0 text
  intro place before skip cs
  fun_induction findAllFrom read place before skip cs with
  | case1 => exact .nil
  | case2 place before skip c cs ih => exact ih
  | case3 place before c cs a rest hr ih =>
    exact .cons (fun found hfound => (place_of_mem_findAllFrom hfound).1) ih
  | case4 place before c cs hr ih => exact ih

theorem place_of_find? {read : Option Char → List Char → Option (α × List Char)}
    {text : List Char} {place : ℕ} {a : α} (h : find? read text = some (place, a)) :
    place < text.length :=
  place_of_mem_findAll (List.mem_of_mem_head? h)

theorem getLast?_cons_or (c : Char) (u : List Char) (before : Option Char) :
    (c :: u).getLast?.or before = u.getLast?.or (some c) := by
  cases u <;> simp [List.getLast?_cons]

theorem exists_read_of_mem_findAllFrom {read : Option Char → List Char → Option (α × List Char)}
    {place skip : ℕ} {found : ℕ × α} (h : found ∈ findAllFrom read place before skip cs) :
    ∃ u t rest, cs = u ++ t ∧ found.1 = place + u.length ∧
      read (u.getLast?.or before) t = some (found.2, rest) := by
  -- what is found behind the first character
  have hlater : ∀ {place : ℕ} {before : Option Char} {c : Char} {cs : List Char},
      (∃ u t rest, cs = u ++ t ∧ found.1 = place + 1 + u.length ∧
        read (u.getLast?.or (some c)) t = some (found.2, rest)) →
      ∃ u t rest, c :: cs = u ++ t ∧ found.1 = place + u.length ∧
        read (u.getLast?.or before) t = some (found.2, rest) := by
    rintro place before c cs ⟨u, t, rest, rfl, hplace, hread⟩
    refine ⟨c :: u, t, rest, rfl, ?_, ?_⟩
    · rw [List.length_cons]
      omega
    · rw [getLast?_cons_or, hread]
  fun_induction findAllFrom read place before skip cs with
  | case1 => exact absurd h List.not_mem_nil
  | case2 place before skip c cs ih => exact hlater (ih h)
  | case3 place before c cs a rest hr ih =>
    rcases List.mem_cons.mp h with rfl | h
    · exact ⟨[], c :: cs, rest, rfl, rfl, hr⟩
    · exact hlater (ih h)
  | case4 place before c cs hr ih => exact hlater (ih h)

/-- A search finds what its reader takes at a place of the text. -/
theorem exists_read_of_mem_findAll {read : Option Char → List Char → Option (α × List Char)}
    {text : List Char} {place : ℕ} {a : α} (h : (place, a) ∈ findAll read text) :
    ∃ u t rest, text = u ++ t ∧ place = u.length ∧ read u.getLast? t = some (a, rest) := by
  obtain ⟨u, t, rest, htext, hplace, hread⟩ := exists_read_of_mem_findAllFrom h
  rw [Nat.zero_add] at hplace
  rw [Option.or_none] at hread
  exact ⟨u, t, rest, htext, hplace, hread⟩

/-- What is read at a place is found there, unless the place is inside of a match that is found
before. -/
theorem mem_findAllFrom_or_inside {read : Option Char → List Char → Option (α × List Char)}
    (place : ℕ) (before : Option Char) {skip : ℕ} {u t rest : List Char} {a : α}
    (ht : t ≠ []) (hskip : skip ≤ u.length) (h : read (u.getLast?.or before) t = some (a, rest)) :
    (place + u.length, a) ∈ findAllFrom read place before skip (u ++ t) ∨
      ∃ u₁ u₂ b r, u = u₁ ++ u₂ ∧ u₂ ≠ [] ∧
        (place + u₁.length, b) ∈ findAllFrom read place before skip (u ++ t) ∧
        read (u₁.getLast?.or before) (u₂ ++ t) = some (b, r) ∧ r.length < t.length := by
  induction u generalizing place before skip with
  | nil =>
    obtain rfl : skip = 0 := Nat.le_zero.mp hskip
    obtain ⟨c, cs, rfl⟩ := List.exists_cons_of_ne_nil ht
    have hfront : read before (c :: cs) = some (a, rest) := h
    rw [List.nil_append, findAllFrom, hfront]
    exact .inl List.mem_cons_self
  | cons c u ih =>
    rw [getLast?_cons_or] at h
    -- what holds behind the first character holds of the whole
    have hlater : ∀ skip, skip ≤ u.length → ∀ {found : List (ℕ × α)},
        findAllFrom read (place + 1) (some c) skip (u ++ t) ⊆ found →
        (place + (c :: u).length, a) ∈ found ∨
          ∃ u₁ u₂ b r, c :: u = u₁ ++ u₂ ∧ u₂ ≠ [] ∧ (place + u₁.length, b) ∈ found ∧
            read (u₁.getLast?.or before) (u₂ ++ t) = some (b, r) ∧ r.length < t.length := by
      intro skip hskip found hsub
      rw [List.length_cons, Nat.add_comm u.length, ← Nat.add_assoc]
      rcases ih (place + 1) (some c) hskip h with hmem | ⟨u₁, u₂, b, r, hu, hne, hmem, hread, hlt⟩
      · exact .inl (hsub hmem)
      · refine .inr ⟨c :: u₁, u₂, b, r, by rw [hu, List.cons_append], hne, ?_, ?_, hlt⟩
        · rw [List.length_cons, Nat.add_comm u₁.length, ← Nat.add_assoc]
          exact hsub hmem
        · rwa [getLast?_cons_or]
    cases skip with
    | succ skip => exact hlater skip (Nat.le_of_succ_le_succ hskip) (List.Subset.refl _)
    | zero =>
      rw [List.cons_append, findAllFrom]
      cases hfront : read before (c :: (u ++ t)) with
      | none => exact hlater 0 (Nat.zero_le _) (List.Subset.refl _)
      | some found =>
        obtain ⟨b, r⟩ := found
        by_cases hinside : (u ++ t).length - r.length ≤ u.length
        · exact hlater _ hinside (List.subset_cons_self _ _)
        · refine .inr ⟨[], c :: u, b, r, rfl, List.cons_ne_nil c u, List.mem_cons_self, hfront, ?_⟩
          rw [List.length_append] at hinside
          omega

theorem mem_findAll_or_inside {read : Option Char → List Char → Option (α × List Char)}
    {u t rest : List Char} {a : α} (ht : t ≠ []) (h : read u.getLast? t = some (a, rest)) :
    (u.length, a) ∈ findAll read (u ++ t) ∨
      ∃ u₁ u₂ b r, u = u₁ ++ u₂ ∧ u₂ ≠ [] ∧ (u₁.length, b) ∈ findAll read (u ++ t) ∧
        read u₁.getLast? (u₂ ++ t) = some (b, r) ∧ r.length < t.length := by
  have hread : read (u.getLast?.or none) t = some (a, rest) := by rwa [Option.or_none]
  have hfound := mem_findAllFrom_or_inside 0 none ht (Nat.zero_le u.length) hread
  simpa only [findAll, Nat.zero_add, Option.or_none] using hfound

/-- Nothing is read inside of what was read. -/
def Apart (read : Option Char → List Char → Option (α × List Char)) : Prop :=
  ∀ before u t a rest, u ≠ [] → rest.length < t.length →
    read before (u ++ t) = some (a, rest) → ∀ before', read before' t = none

/-- A reader that reads nothing inside of what it read finds all that it can read. -/
theorem mem_findAll_of_read {read : Option Char → List Char → Option (α × List Char)}
    (hread : Apart read) {u t rest : List Char} {a : α} (ht : t ≠ [])
    (h : read u.getLast? t = some (a, rest)) : (u.length, a) ∈ findAll read (u ++ t) := by
  rcases mem_findAll_or_inside ht h with hmem | ⟨u₁, u₂, b, r, -, hne, -, hover, hlt⟩
  · exact hmem
  · have hnone := hread _ u₂ t b r hne hlt hover
    rw [hnone] at h
    exact absurd h (Option.some_ne_none _).symm

theorem findAll_map {β : Type} (read : Option Char → List Char → Option (α × List Char))
    (f : α → β) (text : List Char) :
    findAll (fun before cs => (read before cs).map (Prod.map f id)) text =
      (findAll read text).map (Prod.map id f) := by
  suffices h : ∀ place before skip cs,
      findAllFrom (fun before cs => (read before cs).map (Prod.map f id)) place before skip cs =
        (findAllFrom read place before skip cs).map (Prod.map id f) from h 0 none 0 text
  intro place before skip cs
  fun_induction findAllFrom read place before skip cs with
  | case1 => rfl
  | case2 place before skip c cs ih => rw [findAllFrom, ih]
  | case3 place before c cs a rest hr ih =>
    simp only [findAllFrom, hr, Option.map_some, Prod.map_apply, id, List.map_cons]
    rw [ih]
  | case4 place before c cs hr ih =>
    simp only [findAllFrom, hr, Option.map_none]
    rw [ih]

theorem findAll_eq_nil {read : Option Char → List Char → Option (α × List Char)} {text : List Char}
    (h : ∀ before t, t <:+ text → read before t = none) : findAll read text = [] := by
  rw [List.eq_nil_iff_forall_not_mem]
  intro found hfound
  obtain ⟨u, t, rest, rfl, -, hread⟩ := exists_read_of_mem_findAll hfound
  exact absurd ((h _ t (List.suffix_append u t)).symm.trans hread) (Option.some_ne_none _).symm

/-- The search goes on after what belongs to the match before. -/
theorem findAllFrom_skip (read : Option Char → List Char → Option (α × List Char)) (place : ℕ)
    (before : Option Char) (u cs : List Char) :
    findAllFrom read place before u.length (u ++ cs) =
      findAllFrom read (place + u.length) (u.getLast?.or before) 0 cs := by
  induction u generalizing place before with
  | nil => rfl
  | cons c u ih =>
    rw [List.length_cons, List.cons_append, findAllFrom, ih, getLast?_cons_or, Nat.add_assoc,
      Nat.add_comm 1]

/-- A match at the front, and those after it. -/
theorem findAllFrom_of_read {read : Option Char → List Char → Option (α × List Char)} {c : Char}
    {u rest : List Char} {a : α} (place : ℕ) (before : Option Char)
    (h : read before (c :: (u ++ rest)) = some (a, rest)) :
    findAllFrom read place before 0 (c :: (u ++ rest)) =
      (place, a) :: findAllFrom read (place + (c :: u).length) (u.getLast?.or (some c)) 0 rest := by
  rw [findAllFrom, h]
  dsimp only
  rw [List.length_append, Nat.add_sub_cancel, findAllFrom_skip, List.length_cons, Nat.add_assoc,
    Nat.add_comm 1]

theorem findAll_of_read {read : Option Char → List Char → Option (α × List Char)} {c : Char}
    {u rest : List Char} {a : α} (h : read none (c :: (u ++ rest)) = some (a, rest)) :
    findAll read (c :: (u ++ rest)) =
      (0, a) :: findAllFrom read (u.length + 1) (u.getLast?.or (some c)) 0 rest := by
  rw [findAll, findAllFrom_of_read 0 none h, Nat.zero_add, List.length_cons]

theorem column_of_mem_words {line : List Char} {w : Word} (h : w ∈ words line) :
    1 ≤ w.column ∧ w.column ≤ line.length := by
  obtain ⟨⟨place, run⟩, hfound, rfl⟩ := List.mem_map.mp h
  have hplace := place_of_mem_findAll (List.mem_filter.mp hfound).1
  exact ⟨Nat.succ_pos place, hplace⟩

end SnippetLint.Text
