import Mathlib.Data.List.DropRight
import SnippetLint.Pass.UndefinedName
import SnippetLint.Proofs.Text.Readers

/-! The five ways in which a script introduces names, as the shape that a text has from some place
on, and the names of a text: those that are introduced on one of its lines. -/
namespace SnippetLint.UndefinedName
open Text

/-- The ways to introduce names. -/
inductive Way where
  | keyword
  | caught
  | arrow
  | parameters
  | arrowParameters

/-- A text that introduces the names in this way, with the character before it and the rest that is
left behind it. -/
inductive Introduction : Way → Option Char → List Char → List String → List Char → Prop
  /-- `let name`, or another of the words before the name. -/
  | keyword {before : Option Char} {word name : String} {b rest : List Char}
      (hbefore : wordStart before = true) (hword : word ∈ declaringWords) (hne : b ≠ [])
      (hb : ∀ c ∈ b, isBlank c = true) (hname : IsName name.toList rest) :
      Introduction .keyword before (word.toList ++ (b ++ (name.toList ++ rest))) [name] rest
  /-- `catch (name)`. -/
  | caught {before : Option Char} {name : String} {b₁ b₂ b₃ rest : List Char}
      (hbefore : wordStart before = true) (hb₁ : ∀ c ∈ b₁, isBlank c = true)
      (hb₂ : ∀ c ∈ b₂, isBlank c = true) (hname : IsName name.toList (b₃ ++ ')' :: rest))
      (hb₃ : ∀ c ∈ b₃, isBlank c = true) :
      Introduction .caught before
        ("catch".toList ++ (b₁ ++ '(' :: (b₂ ++ (name.toList ++ (b₃ ++ ')' :: rest))))) [name] rest
  /-- `name =>`. -/
  | arrow {before : Option Char} {name : String} {b rest : List Char}
      (hname : IsName name.toList (b ++ '=' :: '>' :: rest)) (hb : ∀ c ∈ b, isBlank c = true) :
      Introduction .arrow before (name.toList ++ (b ++ '=' :: '>' :: rest)) [name] rest
  /-- `function name(list)`, with a star or none, and with a name or none. -/
  | parameters {before : Option Char} {b₁ star b₂ name b₃ list rest : List Char}
      (hbefore : wordStart before = true)
      (hend : wordEnd (b₁ ++ (star ++ (b₂ ++ (name ++ (b₃ ++ '(' :: (list ++ ')' :: rest)))))) =
        true)
      (hb₁ : ∀ c ∈ b₁, isBlank c = true) (hstar : star = [] ∨ star = ['*'])
      (hb₂ : ∀ c ∈ b₂, isBlank c = true) (hname : ∀ c ∈ name, isNameChar c = true)
      (hb₃ : ∀ c ∈ b₃, isBlank c = true) (hlist : ')' ∉ list) :
      Introduction .parameters before ("function".toList ++
        (b₁ ++ (star ++ (b₂ ++ (name ++ (b₃ ++ '(' :: (list ++ ')' :: rest)))))))
        (parameterNames list) rest
  /-- `(list) =>`. -/
  | arrowParameters {before : Option Char} {list b rest : List Char} (hopen : '(' ∉ list)
      (hclose : ')' ∉ list) (hb : ∀ c ∈ b, isBlank c = true) :
      Introduction .arrowParameters before ('(' :: (list ++ ')' :: (b ++ '=' :: '>' :: rest)))
        (parameterNames list) rest

/-- A parameter that is a name, with three dots at most before it. -/
def IsParameter (parameter : List Char) (name : String) : Prop :=
  ∃ dots b rest, trim parameter = dots ++ (b ++ (name.toList ++ rest)) ∧ dots.length ≤ 3 ∧
    (∀ c ∈ dots, c = '.') ∧ (∀ c ∈ b, isBlank c = true) ∧ IsName name.toList rest

/-- What is read from a place on to see names introduced in this way. -/
def Way.read : Way → Option Char → List Char → Option (List String × List Char)
  | keyword, before, cs => (declared? before cs).map (Prod.map ([·]) id)
  | caught, before, cs => (caught? before cs).map (Prod.map ([·]) id)
  | arrow, _, cs => (arrowParameter? cs).map (Prod.map ([·]) id)
  | parameters, before, cs => (functionParameters? before cs).map (Prod.map parameterNames id)
  | arrowParameters, _, cs => (arrowParameters? cs).map (Prod.map parameterNames id)

variable {before : Option Char} {cs rest line masked inside : List Char} {name : String}
  {names : List String} {way : Way}

theorem name?_eq_some_iff : name? cs = some (name, rest) ↔
    cs = name.toList ++ rest ∧ IsName name.toList rest := by
  constructor
  · exact name?_eq_some
  · rintro ⟨rfl, h⟩
    exact h.name?_append

theorem isBlank_head?_name (h : IsName name.toList rest) :
    ∀ c ∈ (name.toList ++ rest).head?, isBlank c = false := by
  intro c hc
  have hident := isIdentChar_of_isIdentStart (h.isIdentStart_head? c hc)
  rw [Bool.eq_false_iff]
  intro hb
  rw [isIdentChar_of_isBlank hb] at hident
  exact absurd hident (by decide)

theorem isNameChar_of_isBlank {c : Char} (h : isBlank c = true) : isNameChar c = false := by
  have hdollar : (c == '$') = false := beq_eq_false_of_pred h (by decide)
  simp [isNameChar, isWordChar_of_isBlank h, hdollar]

theorem arrow?_eq_some_iff : arrow? cs = some rest ↔
    ∃ b, cs = b ++ '=' :: '>' :: rest ∧ ∀ c ∈ b, isBlank c = true := by
  rw [arrow?, List.isPrefixOf?_eq_some_iff_append_eq, eq_comm, skipBlanks_eq_iff]
  constructor
  · rintro ⟨b, rfl, hb, -⟩
    exact ⟨b, rfl, hb⟩
  · rintro ⟨b, rfl, hb⟩
    exact ⟨b, rfl, hb, isBlank_head?_cons (by decide) _⟩

theorem takeWhile_bne {stop : Char} (h : stop ∉ inside) (rest : List Char) :
    (inside ++ stop :: rest).takeWhile (· != stop) = inside ∧
      (inside ++ stop :: rest).dropWhile (· != stop) = stop :: rest := by
  have hall : ∀ c ∈ inside, (c != stop) = true := fun c hc =>
    bne_iff_ne.mpr fun heq => h (heq ▸ hc)
  have hstop : ∀ c ∈ (stop :: rest).head?, (c != stop) = false := by
    rintro c ⟨⟩
    exact bne_self_eq_false stop
  exact ⟨takeWhile_run hall hstop, dropWhile_run hall hstop⟩

theorem upTo?_eq_some_iff {stop : Char} :
    upTo? stop cs = some (inside, rest) ↔ cs = inside ++ stop :: rest ∧ stop ∉ inside := by
  constructor
  · intro h
    unfold upTo? at h
    split at h
    · exact absurd h (by simp)
    · next d ds hdrop =>
      obtain ⟨rfl, rfl⟩ := Prod.mk.inj (Option.some.inj h)
      have hstop := head?_dropWhile (· != stop) cs
      rw [hdrop] at hstop
      obtain rfl : d = stop := by simpa using hstop
      refine ⟨by rw [← hdrop, List.takeWhile_append_dropWhile], fun hmem => ?_⟩
      simpa using List.mem_takeWhile_imp hmem
  · rintro ⟨rfl, h⟩
    obtain ⟨htake, hdrop⟩ := takeWhile_bne h rest
    rw [upTo?, hdrop, htake]

/-! ### One name -/

theorem isWordChar_of_mem_declaringWords :
    ∀ w ∈ declaringWords, ∀ c ∈ w.toList, isWordChar c = true := by
  have h : (declaringWords.all fun w => w.toList.all isWordChar) = true := by decide
  simpa only [List.all_eq_true] using h

theorem declared?_eq_some_iff : declared? before cs = some (name, rest) ↔
    Introduction .keyword before cs [name] rest := by
  simp only [declared?, Option.bind_eq_bind, Option.bind_eq_some_iff,
    oneOfWords?_eq_some_iff isWordChar_of_mem_declaringWords, skipBlanks1?_eq_some_iff,
    name?_eq_some_iff]
  constructor
  · rintro ⟨_, ⟨⟨w, hw, rfl⟩, hs, -⟩, _, ⟨b, rfl, hne, hb, -⟩, rfl, hname⟩
    exact .keyword hs hw hne hb hname
  · intro h
    cases h with
    | @keyword _ w _ b _ hs hw hne hb hname =>
      have hend : wordEnd (b ++ (name.toList ++ rest)) = true :=
        wordEnd_append hb fun hnil => absurd hnil hne
      exact ⟨_, ⟨⟨w, hw, rfl⟩, hs, hend⟩, _, ⟨b, rfl, hne, hb, isBlank_head?_name hname⟩, rfl,
        hname⟩

theorem caught?_eq_some_iff : caught? before cs = some (name, rest) ↔
    Introduction .caught before cs [name] rest := by
  simp only [caught?, Option.bind_eq_bind, Option.bind_eq_some_iff, wholeWord?_eq_some_iff,
    char?_eq_some_iff, skipBlanks_eq_iff, name?_eq_some_iff, Prod.exists]
  constructor
  · rintro ⟨_, ⟨rfl, hs, -⟩, _, ⟨b₁, rfl, hb₁, -⟩, n, _, ⟨⟨b₂, rfl, hb₂, -⟩, hname⟩, _,
      ⟨b₃, rfl, hb₃, -⟩, heq⟩
    obtain ⟨rfl, rfl⟩ := Prod.mk.inj (Option.some.inj heq)
    exact .caught hs hb₁ hb₂ hname hb₃
  · intro h
    cases h with
    | @caught _ _ b₁ b₂ b₃ _ hs hb₁ hb₂ hname hb₃ =>
      have hend : wordEnd (b₁ ++ '(' :: (b₂ ++ (name.toList ++ (b₃ ++ ')' :: rest)))) = true :=
        wordEnd_append hb₁ fun _ => rfl
      exact ⟨_, ⟨rfl, hs, hend⟩, _, ⟨b₁, rfl, hb₁, isBlank_head?_cons (by decide) _⟩, name, _,
        ⟨⟨b₂, rfl, hb₂, isBlank_head?_name hname⟩, hname⟩, _,
        ⟨b₃, rfl, hb₃, isBlank_head?_cons (by decide) _⟩, rfl⟩

theorem arrowParameter?_eq_some_iff (before : Option Char) :
    arrowParameter? cs = some (name, rest) ↔ Introduction .arrow before cs [name] rest := by
  simp only [arrowParameter?, Option.bind_eq_bind, Option.bind_eq_some_iff, name?_eq_some_iff,
    arrow?_eq_some_iff, Prod.exists]
  constructor
  · rintro ⟨n, _, ⟨rfl, hname⟩, _, ⟨b, rfl, hb⟩, heq⟩
    obtain ⟨rfl, rfl⟩ := Prod.mk.inj (Option.some.inj heq)
    exact .arrow hname hb
  · intro h
    cases h with
    | arrow hname hb => exact ⟨name, _, ⟨rfl, hname⟩, _, ⟨_, rfl, hb⟩, rfl⟩

/-! ### A list of parameters -/

theorem arrowParameters?_eq_some_iff : arrowParameters? cs = some (inside, rest) ↔
    ∃ b, cs = '(' :: (inside ++ ')' :: (b ++ '=' :: '>' :: rest)) ∧ '(' ∉ inside ∧ ')' ∉ inside ∧
      ∀ c ∈ b, isBlank c = true := by
  simp only [arrowParameters?, Option.bind_eq_bind, Option.bind_eq_some_iff, char?_eq_some_iff,
    arrow?_eq_some_iff]
  constructor
  · rintro ⟨cs, rfl, _, hdrop, _, ⟨b, rfl, hb⟩, heq⟩
    obtain ⟨rfl, rfl⟩ := Prod.mk.inj (Option.some.inj heq)
    refine ⟨b, by rw [← hdrop, List.takeWhile_append_dropWhile], fun hm => ?_, fun hm => ?_, hb⟩
    · exact absurd (List.mem_takeWhile_imp hm) (by decide)
    · exact absurd (List.mem_takeWhile_imp hm) (by decide)
  · rintro ⟨b, rfl, hopen, hclose, hb⟩
    have hinside : ∀ c ∈ inside, (c != '(' && c != ')') = true := by
      intro c hc
      rw [Bool.and_eq_true, bne_iff_ne, bne_iff_ne]
      exact ⟨fun heq => hopen (heq ▸ hc), fun heq => hclose (heq ▸ hc)⟩
    refine ⟨_, rfl, b ++ '=' :: '>' :: rest, ?_, rest, ⟨b, rfl, hb⟩, ?_⟩
    · rw [List.dropWhile_append_of_pos hinside]
      rfl
    · rw [List.takeWhile_append_of_pos hinside]
      simp

/-- A name and the parenthesis behind it are reached from any blanks before them. -/
theorem skipName_append {b name b₃ : List Char} (hb : ∀ c ∈ b, isBlank c = true)
    (hname : ∀ c ∈ name, isNameChar c = true) (hb₃ : ∀ c ∈ b₃, isBlank c = true) :
    skipBlanks ((skipBlanks (b ++ (name ++ (b₃ ++ '(' :: rest)))).dropWhile isNameChar) =
      '(' :: rest := by
  have hopen : ∀ c ∈ ('(' :: rest).head?, isBlank c = false := isBlank_head?_cons (by decide) rest
  have hnoName : ∀ c ∈ ('(' :: rest).head?, isNameChar c = false := by
    rintro c ⟨⟩
    decide
  cases name with
  | nil =>
    have hblanks : ∀ c ∈ b ++ b₃, isBlank c = true := List.forall_mem_append.mpr ⟨hb, hb₃⟩
    rw [List.nil_append, ← List.append_assoc, skipBlanks_append hblanks hopen,
      dropWhile_rest hnoName]
    exact dropWhile_rest hopen
  | cons c name =>
    have hc : isBlank c = false := by
      rw [Bool.eq_false_iff]
      intro hblank
      have hn := hname c List.mem_cons_self
      rw [isNameChar_of_isBlank hblank] at hn
      exact absurd hn (by decide)
    have hbehind : ∀ d ∈ (b₃ ++ '(' :: rest).head?, isNameChar d = false :=
      forall_mem_head?_append (fun d hd => isNameChar_of_isBlank (hb₃ d hd)) hnoName
    rw [List.cons_append, skipBlanks_append hb (isBlank_head?_cons hc _), ← List.cons_append,
      dropWhile_run hname hbehind, skipBlanks_append hb₃ hopen]

/-- One star at most is passed over. -/
theorem exists_star (cs : List Char) :
    ∃ star, (star = [] ∨ star = ['*']) ∧ cs = star ++ (char? '*' cs).getD cs := by
  cases h : char? '*' cs with
  | none => exact ⟨[], .inl rfl, rfl⟩
  | some behind => exact ⟨['*'], .inr rfl, char?_eq_some_iff.mp h⟩

/-- The parenthesis is reached over blanks, a star and a name, each of which may not be there. -/
theorem skipStarName_append {b₁ star b₂ name b₃ : List Char} (hb₁ : ∀ c ∈ b₁, isBlank c = true)
    (hstar : star = [] ∨ star = ['*']) (hb₂ : ∀ c ∈ b₂, isBlank c = true)
    (hname : ∀ c ∈ name, isNameChar c = true) (hb₃ : ∀ c ∈ b₃, isBlank c = true) {cs : List Char}
    (hcs : cs = skipBlanks (b₁ ++ (star ++ (b₂ ++ (name ++ (b₃ ++ '(' :: rest)))))) :
    skipBlanks ((skipBlanks ((char? '*' cs).getD cs)).dropWhile isNameChar) = '(' :: rest := by
  rcases hstar with rfl | rfl
  · have hblanks : ∀ c ∈ b₁ ++ b₂, isBlank c = true := List.forall_mem_append.mpr ⟨hb₁, hb₂⟩
    have hskip := @skipName_append rest _ name b₃ hblanks hname hb₃
    rw [List.append_assoc] at hskip
    rw [List.nil_append] at hcs
    rw [← hcs] at hskip
    cases hchar : char? '*' cs with
    | none =>
      have htwice : skipBlanks cs = cs := hcs ▸ List.dropWhile_idempotent isBlank _
      rw [Option.getD_none, htwice, hskip]
    | some behind =>
      rw [char?_eq_some_iff.mp hchar] at hskip
      exact absurd (List.cons.inj hskip).1 (by decide)
  · rw [List.singleton_append, skipBlanks_append hb₁ (isBlank_head?_cons (by decide) _)] at hcs
    rw [char?_eq_some_iff.mpr hcs, Option.getD_some]
    exact skipName_append hb₂ hname hb₃

theorem functionParameters?_eq_some_iff : functionParameters? before cs = some (inside, rest) ↔
    ∃ b₁ star b₂ name b₃, cs = "function".toList ++
        (b₁ ++ (star ++ (b₂ ++ (name ++ (b₃ ++ '(' :: (inside ++ ')' :: rest)))))) ∧
      wordStart before = true ∧
      wordEnd (b₁ ++ (star ++ (b₂ ++ (name ++ (b₃ ++ '(' :: (inside ++ ')' :: rest)))))) = true ∧
      (∀ c ∈ b₁, isBlank c = true) ∧ (star = [] ∨ star = ['*']) ∧ (∀ c ∈ b₂, isBlank c = true) ∧
      (∀ c ∈ name, isNameChar c = true) ∧ (∀ c ∈ b₃, isBlank c = true) ∧ ')' ∉ inside := by
  simp only [functionParameters?, Option.bind_eq_bind, Option.bind_eq_some_iff,
    wholeWord?_eq_some_iff, char?_eq_some_iff, upTo?_eq_some_iff]
  constructor
  · rintro ⟨after, ⟨rfl, hs, hend⟩, _, hopen, rfl, hclose⟩
    obtain ⟨b₁, hb₁, hall₁⟩ := exists_append_skipBlanks after
    obtain ⟨star, hstar, hsplit⟩ := exists_star (skipBlanks after)
    generalize (char? '*' (skipBlanks after)).getD (skipBlanks after) = body at hopen hsplit
    obtain ⟨b₂, hb₂, hall₂⟩ := exists_append_skipBlanks body
    obtain ⟨b₃, hb₃, hall₃⟩ :=
      exists_append_skipBlanks ((skipBlanks body).dropWhile isNameChar)
    have hafter : after = b₁ ++ (star ++ (b₂ ++ ((skipBlanks body).takeWhile isNameChar ++
        (b₃ ++ '(' :: (inside ++ ')' :: rest))))) := by
      rw [← hopen, ← hb₃, List.takeWhile_append_dropWhile, ← hb₂, ← hsplit, ← hb₁]
    rw [hafter] at hend ⊢
    exact ⟨b₁, star, b₂, _, b₃, rfl, hs, hend, hall₁, hstar, hall₂,
      fun c hc => List.mem_takeWhile_imp hc, hall₃, hclose⟩
  · rintro ⟨b₁, star, b₂, name, b₃, rfl, hs, hend, hb₁, hstar, hb₂, hname, hb₃, hclose⟩
    exact ⟨_, ⟨rfl, hs, hend⟩, _, skipStarName_append hb₁ hstar hb₂ hname hb₃ rfl, rfl, hclose⟩

theorem parameterName?_eq_some_iff {parameter : List Char} :
    parameterName? parameter = some name ↔ IsParameter parameter name := by
  have hcut : ∀ cs : List Char, cs.drop (cs.takeWhile (· == '.')).length =
      cs.dropWhile (· == '.') := by
    intro cs
    have h := congrArg (List.drop (cs.takeWhile (· == '.')).length)
      (List.takeWhile_append_dropWhile (p := (· == '.')) (l := cs))
    rw [List.drop_left] at h
    exact h.symm
  unfold parameterName?
  dsimp only
  rw [hcut]
  constructor
  · intro h
    split_ifs at h with hdots
    obtain ⟨⟨n, rest⟩, hread, rfl⟩ := Option.map_eq_some_iff.mp h
    obtain ⟨hskip, hname⟩ := name?_eq_some_iff.mp hread
    obtain ⟨b, hb, hall, -⟩ := skipBlanks_eq_iff.mp hskip
    refine ⟨(trim parameter).takeWhile (· == '.'), b, rest, ?_, hdots, fun c hc => ?_, hall, hname⟩
    · rw [← hb, List.takeWhile_append_dropWhile]
    · simpa using List.mem_takeWhile_imp hc
  · rintro ⟨dots, b, rest, htrim, hdots, hall, hb, hname⟩
    have hpos : ∀ c ∈ dots, (c == '.') = true := fun c hc => beq_iff_eq.mpr (hall c hc)
    have hfirst : ∀ c ∈ (b ++ (name.toList ++ rest)).head?, (c == '.') = false :=
      forall_mem_head?_append (fun c hc => beq_eq_false_of_pred (hb c hc) (by decide))
        fun c hc => beq_eq_false_of_pred (hname.isIdentStart_head? c hc) (by decide)
    rw [htrim, takeWhile_run hpos hfirst, dropWhile_run hpos hfirst, if_pos hdots,
      skipBlanks_append hb (isBlank_head?_name hname), hname.name?_append]
    rfl

theorem mem_parameterNames {list : List Char} :
    name ∈ parameterNames list ↔ ∃ parameter ∈ list.splitOn ',', IsParameter parameter name := by
  simp only [parameterNames, List.mem_filterMap, parameterName?_eq_some_iff]

/-! ### All ways -/

theorem Way.read_eq_some_iff : way.read before cs = some (names, rest) ↔
    Introduction way before cs names rest := by
  have hone : ∀ {o : Option (String × List Char)}, o.map (Prod.map ([·]) id) = some (names, rest) ↔
      ∃ name, o = some (name, rest) ∧ [name] = names := by
    simp [Prod.ext_iff]
  have hlist : ∀ {o : Option (List Char × List Char)},
      o.map (Prod.map parameterNames id) = some (names, rest) ↔
        ∃ list, o = some (list, rest) ∧ parameterNames list = names := by
    simp [Prod.ext_iff]
  cases way with
  | keyword =>
    simp only [Way.read, hone, declared?_eq_some_iff]
    constructor
    · rintro ⟨name, h, rfl⟩
      exact h
    · intro h
      cases h with
      | keyword hs hw hne hb hname => exact ⟨_, .keyword hs hw hne hb hname, rfl⟩
  | caught =>
    simp only [Way.read, hone, caught?_eq_some_iff]
    constructor
    · rintro ⟨name, h, rfl⟩
      exact h
    · intro h
      cases h with
      | caught hs hb₁ hb₂ hname hb₃ => exact ⟨_, .caught hs hb₁ hb₂ hname hb₃, rfl⟩
  | arrow =>
    simp only [Way.read, hone, arrowParameter?_eq_some_iff before]
    constructor
    · rintro ⟨name, h, rfl⟩
      exact h
    · intro h
      cases h with
      | arrow hname hb => exact ⟨_, .arrow hname hb, rfl⟩
  | parameters =>
    simp only [Way.read, hlist, functionParameters?_eq_some_iff]
    constructor
    · rintro ⟨list, ⟨b₁, star, b₂, name, b₃, rfl, hs, he, hb₁, hstar, hb₂, hname, hb₃, h⟩, rfl⟩
      exact .parameters hs he hb₁ hstar hb₂ hname hb₃ h
    · intro h
      cases h with
      | parameters hs he hb₁ hstar hb₂ hname hb₃ h =>
        exact ⟨_, ⟨_, _, _, _, _, rfl, hs, he, hb₁, hstar, hb₂, hname, hb₃, h⟩, rfl⟩
  | arrowParameters =>
    simp only [Way.read, hlist, arrowParameters?_eq_some_iff]
    constructor
    · rintro ⟨list, ⟨b, rfl, hopen, hclose, hb⟩, rfl⟩
      exact .arrowParameters hopen hclose hb
    · intro h
      cases h with
      | arrowParameters hopen hclose hb => exact ⟨_, ⟨_, rfl, hopen, hclose, hb⟩, rfl⟩

theorem exists_way {p : Way → Prop} : (∃ way, p way) ↔
    p .keyword ∨ p .caught ∨ p .arrow ∨ p .parameters ∨ p .arrowParameters := by
  constructor
  · rintro ⟨_ | _ | _ | _ | _, h⟩ <;> simp [h]
  · rintro (h | h | h | h | h) <;> exact ⟨_, h⟩

theorem exists_mem_findAll_map {α : Type} (read : Option Char → List Char → Option (α × List Char))
    (f : α → List String) (line : List Char) (name : String) :
    (∃ found ∈ findAll (fun before cs => (read before cs).map (Prod.map f id)) line,
      name ∈ found.2) ↔ ∃ found ∈ findAll read line, name ∈ f found.2 := by
  simp [findAll_map]

theorem mem_namesOfLine : name ∈ namesOfLine line ↔
    ∃ way : Way, ∃ found ∈ findAll way.read line, name ∈ found.2 := by
  have hkeyword : (∃ found ∈ findAll Way.keyword.read line, name ∈ found.2) ↔ _ :=
    exists_mem_findAll_map declared? ([·]) line name
  have hcaught : (∃ found ∈ findAll Way.caught.read line, name ∈ found.2) ↔ _ :=
    exists_mem_findAll_map caught? ([·]) line name
  have harrow : (∃ found ∈ findAll Way.arrow.read line, name ∈ found.2) ↔ _ :=
    exists_mem_findAll_map (fun _ => arrowParameter?) ([·]) line name
  have hparameters : (∃ found ∈ findAll Way.parameters.read line, name ∈ found.2) ↔ _ :=
    exists_mem_findAll_map functionParameters? parameterNames line name
  have harrows : (∃ found ∈ findAll Way.arrowParameters.read line, name ∈ found.2) ↔ _ :=
    exists_mem_findAll_map (fun _ => arrowParameters?) parameterNames line name
  rw [exists_way, hkeyword, hcaught, harrow, hparameters, harrows]
  simp only [namesOfLine, List.mem_append, List.mem_map, List.mem_flatMap, or_assoc,
    List.mem_singleton, eq_comm]

/-- A name of the text is introduced somewhere on one of its lines. -/
theorem exists_introduction (h : name ∈ declaredNames masked) :
    ∃ way u t names rest, u ++ t ∈ lines masked ∧
      Introduction way u.getLast? t names rest ∧ name ∈ names := by
  rw [declaredNames, List.mem_eraseDups, List.mem_flatMap] at h
  obtain ⟨line, hline, h⟩ := h
  obtain ⟨way, ⟨place, names⟩, hfound, hname⟩ := mem_namesOfLine.mp h
  obtain ⟨u, t, rest, rfl, -, hread⟩ := exists_read_of_mem_findAll hfound
  exact ⟨way, u, t, names, rest, hline, Way.read_eq_some_iff.mp hread, hname⟩

/-- What introduces a name makes it one of the text's names, unless it begins inside of what
introduces names in the same way. -/
theorem mem_declaredNames_or_inside {u t : List Char} (hline : u ++ t ∈ lines masked)
    (h : Introduction way u.getLast? t names rest) (hname : name ∈ names) :
    name ∈ declaredNames masked ∨ ∃ u₁ u₂ others r, u = u₁ ++ u₂ ∧ u₂ ≠ [] ∧
      Introduction way u₁.getLast? (u₂ ++ t) others r ∧ r.length < t.length := by
  have ht : t ≠ [] := by
    cases h with
    | keyword _ _ hne => simp [hne]
    | caught | arrow | parameters | arrowParameters => simp
  rcases mem_findAll_or_inside ht (Way.read_eq_some_iff.mpr h) with
    hfound | ⟨u₁, u₂, others, r, hu, hne, -, hread, hlt⟩
  · left
    rw [declaredNames, List.mem_eraseDups, List.mem_flatMap]
    exact ⟨_, hline, mem_namesOfLine.mpr ⟨way, _, hfound, hname⟩⟩
  · exact .inr ⟨u₁, u₂, others, r, hu, hne, Way.read_eq_some_iff.mp hread, hlt⟩

end SnippetLint.UndefinedName
