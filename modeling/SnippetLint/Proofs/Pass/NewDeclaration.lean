import SnippetLint.Proofs.Pass.DeclaredNames
import SnippetLint.Proofs.Source.PlainLine
import SnippetLint.Proofs.Text.Trimming

/-! A script that goes on with one more line, which declares a name and does nothing else. The
reports about that name are gone, and no other report comes, goes or moves. -/
namespace SnippetLint.UndefinedName
open Text Source

variable {before : Option Char} {cs : List Char} {line masked : List Char} {name word : String}

/-- A name in ASCII. -/
structure IsIdentifier (name : String) : Prop where
  first : ∃ c ∈ name.toList.head?, isIdentStart c = true
  all : ∀ c ∈ name.toList, isIdentChar c = true

/-- The line that declares the name. -/
def declaration (name : String) : List Char := "var ".toList ++ (name.toList ++ [';'])

/-- The report is about a use of the name. -/
def isAbout (name : String) (d : Diagnostic) : Bool :=
  d.message == "'" ++ name ++ "' might be undefined"

/-! ### Names that need a parenthesis or an arrow -/

theorem caught?_eq_none (h : '(' ∉ cs) : caught? before cs = none := by
  rw [Option.eq_none_iff_forall_not_mem]
  rintro ⟨name, rest⟩ hread
  cases caught?_eq_some_iff.mp hread
  simp at h

theorem arrowParameter?_eq_none (h : '=' ∉ cs) : arrowParameter? cs = none := by
  rw [Option.eq_none_iff_forall_not_mem]
  rintro ⟨name, rest⟩ hread
  cases (arrowParameter?_eq_some_iff none).mp hread
  simp at h

theorem functionParameters?_eq_none (h : '(' ∉ cs) : functionParameters? before cs = none := by
  rw [Option.eq_none_iff_forall_not_mem]
  rintro ⟨inside, rest⟩ hread
  obtain ⟨b₁, star, b₂, name, b₃, rfl, -⟩ := functionParameters?_eq_some_iff.mp hread
  simp at h

theorem arrowParameters?_eq_none (h : '(' ∉ cs) : arrowParameters? cs = none := by
  rw [Option.eq_none_iff_forall_not_mem]
  rintro ⟨inside, rest⟩ hread
  obtain ⟨b, rfl, -⟩ := arrowParameters?_eq_some_iff.mp hread
  simp at h

/-! ### The new line -/

theorem isInert_of_isIdentChar {c : Char} (h : isIdentChar c = true) : isInert c = true := by
  rw [isInert_iff]
  refine ⟨?_, Bool.eq_false_iff.mpr fun hq => ?_⟩
  · rintro rfl
    exact absurd h (by decide)
  · rw [Lexeme.isQuote, Bool.or_eq_true, Bool.or_eq_true, beq_iff_eq, beq_iff_eq, beq_iff_eq] at hq
    rcases hq with (rfl | rfl) | rfl <;> exact absurd h (by decide)

theorem mem_declaration {c : Char} (h : c ∈ declaration name) :
    c ∈ ['v', 'a', 'r', ' ', ';'] ∨ c ∈ name.toList := by
  rw [declaration, List.mem_append, List.mem_append] at h
  have hvar : "var ".toList = ['v', 'a', 'r', ' '] := rfl
  rw [hvar] at h
  simp only [List.mem_cons, List.not_mem_nil, or_false] at h ⊢
  tauto

namespace IsIdentifier

theorem not_mem_declaration (h : IsIdentifier name) {c : Char} (hc : isIdentChar c = false)
    (hv : c ∉ ['v', 'a', 'r', ' ', ';']) : c ∉ declaration name := by
  intro hm
  rcases mem_declaration hm with hm | hm
  · exact hv hm
  · exact absurd ((h.all c hm).symm.trans hc) (by decide)

theorem isInert_declaration (h : IsIdentifier name) : ∀ c ∈ declaration name, isInert c = true := by
  intro c hc
  rcases mem_declaration hc with hc | hc
  · have hall : ∀ c ∈ ['v', 'a', 'r', ' ', ';'], isInert c = true :=
      List.all_eq_true.mp (by decide)
    exact hall c hc
  · exact isInert_of_isIdentChar (h.all c hc)

theorem isName (h : IsIdentifier name) : IsName name.toList [';'] where
  first := h.first
  all c hc := isNameChar_of_isIdentChar (h.all c hc)
  right c hc := by
    rw [← Option.some.inj hc]
    decide

theorem exists_toList_eq (h : IsIdentifier name) :
    ∃ c cs, name.toList = c :: cs ∧ isIdentChar c = true := by
  obtain ⟨c, hc, hstart⟩ := h.first
  obtain ⟨cs, hname⟩ := List.head?_eq_some_iff.mp hc
  exact ⟨c, cs, hname, isIdentChar_of_isIdentStart hstart⟩

end IsIdentifier

theorem declared?_declaration (h : IsIdentifier name) :
    declared? none (declaration name) = some (name, [';']) := by
  have hword : oneOfWords? declaringWords none (declaration name) =
      some (' ' :: (name.toList ++ [';'])) := rfl
  have hblanks : skipBlanks1? (' ' :: (name.toList ++ [';'])) = some (name.toList ++ [';']) := by
    obtain ⟨c, cs, hname, hc⟩ := h.exists_toList_eq
    have hblank : ¬ isBlank c = true := fun hb =>
      absurd (hc.symm.trans (isIdentChar_of_isBlank hb)) (by decide)
    rw [skipBlanks1?, if_pos (by decide), hname, List.cons_append, skipBlanks,
      List.dropWhile_cons_of_neg hblank]
  rw [declared?, hword]
  simp [hblanks, h.isName.name?_append]

theorem declared?_semicolon (before : Option Char) : declared? before [';'] = none := by
  cases hword : oneOfWords? declaringWords before [';'] with
  | none => rw [declared?, hword, Option.bind_eq_bind, Option.bind_none]
  | some rest =>
    obtain ⟨⟨w, hw, hline⟩, -⟩ :=
      (oneOfWords?_eq_some_iff isWordChar_of_mem_declaringWords).mp hword
    have hlong : ∀ w ∈ declaringWords, 1 < w.toList.length := by decide
    have hlength := congrArg List.length hline
    rw [List.length_singleton, List.length_append] at hlength
    have := hlong w hw
    omega

theorem findAll_declared?_declaration (h : IsIdentifier name) :
    findAll declared? (declaration name) = [(0, name)] := by
  have hline : declaration name = 'v' :: (("ar ".toList ++ name.toList) ++ [';']) := by
    rw [List.append_assoc]
    rfl
  have hread := declared?_declaration h
  rw [hline] at hread ⊢
  rw [findAll_of_read hread, findAllFrom, declared?_semicolon]
  rfl

theorem namesOfLine_declaration (h : IsIdentifier name) :
    namesOfLine (declaration name) = [name] := by
  have hopen : '(' ∉ declaration name := h.not_mem_declaration (by decide) (by decide)
  have harrow : '=' ∉ declaration name := h.not_mem_declaration (by decide) (by decide)
  rw [namesOfLine, findAll_declared?_declaration h,
    findAll_eq_nil fun _ _ ht => caught?_eq_none fun hm => hopen (ht.subset hm),
    findAll_eq_nil fun _ _ ht => arrowParameter?_eq_none fun hm => harrow (ht.subset hm),
    findAll_eq_nil fun _ _ ht => functionParameters?_eq_none fun hm => hopen (ht.subset hm),
    findAll_eq_nil fun _ _ ht => arrowParameters?_eq_none fun hm => hopen (ht.subset hm)]
  rfl

theorem lines_append_declaration (h : IsIdentifier name) (masked : List Char) :
    lines (masked ++ '\n' :: declaration name) = lines masked ++ [declaration name] := by
  have hnone : '\n' ∉ declaration name := h.not_mem_declaration (by decide) (by decide)
  have hline : lines (declaration name) = [declaration name] := by
    have hrun := lines_run_append hnone []
    rwa [List.append_nil, lines_nil, List.modifyHead_cons, List.append_nil] at hrun
  rw [List.append_cons, lines_append, lines_append_lineFeed, lastLine_append_lineFeed, hline,
    List.dropLast_concat]
  rfl

theorem mem_declaredNames_append (h : IsIdentifier name) :
    word ∈ declaredNames (masked ++ '\n' :: declaration name) ↔
      word ∈ declaredNames masked ∨ word = name := by
  simp only [declaredNames, List.mem_eraseDups]
  rw [lines_append_declaration h, List.flatMap_append, List.mem_append, List.flatMap_singleton,
    namesOfLine_declaration h, List.mem_singleton]

theorem text_of_mem_words_declaration (h : IsIdentifier name) {w : Word}
    (hw : w ∈ words (declaration name)) : w.text = "var" ∨ w.text = name := by
  have hline : declaration name = "var".toList ++ ' ' :: (name.toList ++ [';']) := rfl
  have hident : ∀ c ∈ "var".toList, isIdentChar c = true := List.all_eq_true.mp (by decide)
  have hspace : isIdentChar ' ' = false := by decide
  have hsemicolon : isIdentChar ';' = false := by decide
  obtain ⟨c, cs, hname, -⟩ := h.exists_toList_eq
  rw [mem_words_iff, hline, Word.stands_run_iff (by decide) hident (by simp) (by simp [hspace]),
    Word.stands_cons_iff hspace, Word.stands_run_iff (by simp [hname]) h.all (by simp [hspace])
      (by simp [hsemicolon]), Word.stands_cons_iff hsemicolon] at hw
  rcases hw with ⟨-, rfl⟩ | ⟨-, rfl⟩ | hw
  · exact .inl rfl
  · exact .inr String.ofList_toList
  · exact absurd hw (w.not_stands_nil _)

/-! ### The two runs -/

/-- The use of a name is not explained by what the script declares, by what is known or by what
stands next to it. -/
def isUnexplained (names : List String) (line : List Char) (w : Word) : Bool :=
  !(names.contains w.text || knownNames.contains w.text || isMember line w || isKey line w)

/-- What is reported on a line when these names are declared. -/
def findOnLine (names : List String) (x : List Char × ℕ) : List Diagnostic :=
  ((words x.1).filter (isUnexplained names x.1)).map (warning x.2)

theorem find_eq (code : List Char) :
    find code = (numbered (mask code)).flatMap (findOnLine (declaredNames (mask code))) := rfl

theorem isAbout_warning (n : ℕ) (w : Word) : isAbout name (warning n w) = (w.text == name) := by
  have hinjective : "'" ++ w.text ++ "' might be undefined" =
      "'" ++ name ++ "' might be undefined" ↔ w.text = name := by
    rw [String.append_left_inj, String.append_right_inj]
  rw [Bool.eq_iff_iff, beq_iff_eq, ← hinjective]
  exact beq_iff_eq

/-- One name more explains the uses of that name. -/
theorem findOnLine_of_declared {names more : List String}
    (h : ∀ word, word ∈ more ↔ word ∈ names ∨ word = name) (x : List Char × ℕ) :
    findOnLine more x = (findOnLine names x).filter (!isAbout name ·) := by
  have hword : ∀ w, isUnexplained more x.1 w =
      ((fun w => !isAbout name (warning x.2 w)) w && isUnexplained names x.1 w) := by
    intro w
    have hmore : more.contains w.text = (w.text == name || names.contains w.text) := by
      rw [Bool.eq_iff_iff, Bool.or_eq_true, List.contains_iff_mem, List.contains_iff_mem,
        beq_iff_eq, h, or_comm]
    dsimp only [isUnexplained]
    rw [isAbout_warning, hmore, ← Bool.not_or, Bool.or_assoc, Bool.or_assoc, Bool.or_assoc,
      Bool.or_assoc, Bool.or_assoc]
  rw [findOnLine, funext hword, findOnLine, List.filter_map, List.filter_filter]
  rfl

/-- A name that the script declares in one more line is reported no more, and that is all. -/
theorem find_append_declaration (code : List Char) (h : IsIdentifier name) :
    find (code ++ '\n' :: declaration name) = (find code).filter (!isAbout name ·) := by
  have hmask := mask_append_plainLine code h.isInert_declaration
  have hnumbered : numbered (mask code ++ '\n' :: declaration name) =
      numbered (mask code) ++ [(declaration name, (lines (mask code)).length + 1)] := by
    rw [numbered, lines_append_declaration h, List.zipIdx_append, Nat.add_comm]
    rfl
  have hnew : findOnLine (declaredNames (mask code ++ '\n' :: declaration name))
      (declaration name, (lines (mask code)).length + 1) = [] := by
    rw [findOnLine, List.map_eq_nil_iff, List.filter_eq_nil_iff]
    intro w hw
    have hexplained : w.text ∈ declaredNames (mask code ++ '\n' :: declaration name) ∨
        w.text ∈ knownNames := by
      rcases text_of_mem_words_declaration h hw with hvar | hname
      · exact .inr (hvar ▸ by decide)
      · exact .inl ((mem_declaredNames_append h).mpr (.inr hname))
    rcases hexplained with hw | hw <;> simp [isUnexplained, hw]
  rw [find_eq, hmask, hnumbered, List.flatMap_append, List.flatMap_singleton, hnew, List.append_nil,
    find_eq, List.filter_flatMap]
  exact List.flatMap_congr fun x _ => findOnLine_of_declared (fun _ => mem_declaredNames_append h) x

namespace Sample

/-- Uses a name twice, and leaves a template open. -/
def usedTwice : List Char := "let total = count + rate;\n`count".toList

theorem find_usedTwice : IsIdentifier "count" ∧
    find usedTwice = [.warning ⟨1, 13⟩ "'count' might be undefined",
      .warning ⟨1, 21⟩ "'rate' might be undefined",
      .warning ⟨2, 2⟩ "'count' might be undefined"] ∧
    find (usedTwice ++ '\n' :: declaration "count") =
      [.warning ⟨1, 21⟩ "'rate' might be undefined"] := by
  have h : IsIdentifier "count" := ⟨⟨'c', rfl, by decide⟩, List.all_eq_true.mp (by decide)⟩
  have hfind : find usedTwice = [.warning ⟨1, 13⟩ "'count' might be undefined",
      .warning ⟨1, 21⟩ "'rate' might be undefined",
      .warning ⟨2, 2⟩ "'count' might be undefined"] := by decide +kernel
  refine ⟨h, hfind, (find_append_declaration usedTwice h).trans ?_⟩
  rw [hfind]
  decide +kernel

end Sample
end SnippetLint.UndefinedName
