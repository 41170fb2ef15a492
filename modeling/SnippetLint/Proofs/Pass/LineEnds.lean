import SnippetLint.Pass.Brackets
import SnippetLint.Pass.CDialect
import SnippetLint.Pass.Semicolon
import SnippetLint.Pass.Smell
import SnippetLint.Pass.Spelling
import SnippetLint.Pass.UndefinedName
import SnippetLint.Proofs.Pass.MainBody
import SnippetLint.Proofs.Text.PaddedSearch

/-! What the passes find in two texts that differ in blanks at the ends of their lines alone: the
same, at the same positions. -/
namespace SnippetLint
open Text

variable {multi : Bool} {a b : List Char}

theorem Bracket.scanFrom_crlf (b : Bracket) (p : Position) (opens : List Position)
    (code : List Char) : b.scanFrom p opens (crlf code) = b.scanFrom p opens code := by
  induction code generalizing p opens with
  | nil => rfl
  | cons c cs ih =>
    by_cases hc : c = '\n'
    · subst hc
      rw [crlf_lineFeed]
      cases b <;> exact ih _ _
    · rw [crlf_cons hc]
      cases opens <;> simp only [scanFrom, ih]

theorem Spelling.typos_of_padded {table : List Spelling} {code code' : List Char}
    (h : Padded true (Source.mask code) (Source.mask code')) :
    typos table code = typos table code' := by
  refine h.flatMap_numbered fun x y n hxy => ?_
  dsimp only
  rw [hxy.words_eq]

namespace Semicolon

theorem place_eq (h : Padded false a b) (n : ℕ) : place a n = place b n := by
  rw [place, place, h.trimEnd_eq]

theorem missingInScript_of_padded {code code' : List Char}
    (h : Padded true (Source.mask code) (Source.mask code')) :
    missingInScript code = missingInScript code' := by
  refine h.filterMap_numbered fun x y n hxy => ?_
  dsimp only
  rw [hxy.trim_eq, place_eq hxy]

theorem missingInBlockFrom_eq {ls ls' : List (List Char)} (h : List.Forall₂ (Padded false) ls ls')
    (n : ℕ) : missingInBlockFrom n ls = missingInBlockFrom n ls' := by
  induction h generalizing n with
  | nil => rfl
  | @cons x y rest rest' hxy h ih =>
    have hfollows : blockFollows rest = blockFollows rest' := by
      rw [blockFollows, blockFollows, map_eq_of_forall₂ h fun _ _ hxy => hxy.trim_eq]
    rw [missingInBlockFrom, missingInBlockFrom, hxy.trim_eq, place_eq hxy, hfollows, ih]

theorem missingInBlock_of_padded {code code' : List Char}
    (h : Padded true (Source.mask code) (Source.mask code')) :
    missingInBlock code = missingInBlock code' :=
  missingInBlockFrom_eq h.lines 1

end Semicolon

namespace UndefinedName

theorem steady_declared? : Steady false Eq declared? where
  rel before a b h :=
    rel_bind (h.reads.oneOfWords? (by decide) before) fun _ _ hword =>
      hword.skipBlanks1?_bind rfl fun _ _ hname => hname.name?
  atGap before cs h := by
    unfold declared?
    rw [oneOfWords?_of_atGap (by decide) before h]
    rfl

theorem steady_caught? : Steady false Eq caught? where
  rel before a b h := by
    refine rel_bind (h.reads.wholeWord? (by decide) before) fun _ _ hword => ?_
    refine rel_bind (hword.skipBlanks.char? (by decide)) fun _ _ hopen => ?_
    refine rel_bind hopen.skipBlanks.name? fun u v hname => ?_
    refine rel_bind (hname.2.skipBlanks.char? (by decide)) fun _ _ hclose => ?_
    exact .some ⟨hname.1, hclose⟩
  atGap before cs h := by
    unfold caught?
    rw [wholeWord?_of_atGap (by decide) before h]
    rfl

theorem rel_arrow? {r s : List Char} (h : Reads multi a b r s) :
    Option.Rel (Reads multi a b) (arrow? r) (arrow? s) :=
  h.skipBlanks.isPrefixOf? (isSolid_iff.mp (by decide)).2

theorem steady_arrowParameter? : Steady false Eq fun _ => arrowParameter? where
  rel _ a b h :=
    rel_bind h.reads.name? fun _ _ hname =>
      rel_bind (rel_arrow? hname.2) fun _ _ harrow => .some ⟨hname.1, harrow⟩
  atGap _ cs h := by
    unfold arrowParameter?
    rw [name?_of_atGap h]
    rfl

theorem steady_functionParameters? : Steady false Eq functionParameters? where
  rel before a b h := by
    refine rel_bind (h.reads.wholeWord? (by decide) before) fun _ _ hword => ?_
    have hstar := hword.skipBlanks.char? (c := '*') (by decide)
    have hname := (Reads.getD hstar hword.skipBlanks).skipBlanks
    have hrest := (hname.span_of_not_gap (p := isNameChar) (forall_isGap (by decide))).2.skipBlanks
    exact rel_bind (hrest.char? (by decide)) fun _ _ hopen => hopen.upTo? (by decide)
  atGap before cs h := by
    unfold functionParameters?
    rw [wholeWord?_of_atGap (by decide) before h]
    rfl

theorem arrowParameters?_eq (cs : List Char) :
    arrowParameters? cs = (char? '(' cs).bind fun cs =>
      ((char? ')' (cs.dropWhile fun c => c != '(' && c != ')')).bind arrow?).map fun rest =>
        (cs.takeWhile fun c => c != '(' && c != ')', rest) := by
  unfold arrowParameters?
  congr 1
  funext cs
  dsimp only
  cases char? ')' (cs.dropWhile fun c => c != '(' && c != ')') with
  | none => rfl
  | some r => cases h : arrow? r <;> simp [h]

theorem steady_arrowParameters? : Steady false Eq fun _ => arrowParameters? where
  rel _ a b h := by
    have hp : ∀ c, isGap c → (c != '(' && c != ')') = true := forall_isGap (by decide)
    rw [arrowParameters?_eq, arrowParameters?_eq]
    refine rel_bind (h.reads.char? (by decide)) fun _ _ hopen => ?_
    exact hopen.before_stop (f := fun cs => (char? ')' cs).bind arrow?) hp rfl fun _ _ hinside =>
      rel_bind (hinside.char? (by decide)) fun _ _ hclose => rel_arrow? hclose
  atGap _ cs h := by
    unfold arrowParameters?
    rw [char?_of_atGap (by decide) h]
    rfl

theorem namesOfLine_eq (h : Padded false a b) : namesOfLine a = namesOfLine b := by
  rw [namesOfLine, namesOfLine, steady_declared?.findAll_eq h, steady_caught?.findAll_eq h,
    steady_arrowParameter?.findAll_eq h, steady_functionParameters?.findAll_eq h,
    steady_arrowParameters?.findAll_eq h]

theorem isMember_eq (h : Padded false a b) (w : Word) : isMember a w = isMember b w := by
  have hbefore : ∀ c, ¬ isGap c → (w.before? a == some c) = (w.before? b == some c) := by
    intro c hc
    unfold Word.before?
    split_ifs
    · rfl
    · exact (h.drop _).head?_beq hc
  rw [isMember, isMember, hbefore _ (by decide), hbefore _ (by decide)]

theorem isKey_eq_any (line : List Char) (w : Word) :
    isKey line w = (char? ':' (w.after line)).any fun cs => !(char? ':' cs).isSome := by
  unfold isKey
  generalize w.after line = cs
  rcases cs with _ | ⟨c, _ | ⟨d, ds⟩⟩
  · rfl
  · by_cases hc : c = ':' <;> simp [char?, hc]
  · by_cases hc : c = ':' <;> by_cases hd : d = ':' <;> simp [char?, hc, hd]

theorem isKey_eq (h : Padded false a b) (w : Word) : isKey a w = isKey b w := by
  have hafter := (h.drop (w.place + w.text.length)).reads.char? (c := ':') (by decide)
  rw [isKey_eq_any, isKey_eq_any]
  refine any_eq_of_rel hafter fun _ _ hcolon => ?_
  rw [isSome_eq_of_rel (hcolon.char? (by decide))]

theorem find_of_padded {code code' : List Char}
    (h : Padded true (Source.mask code) (Source.mask code')) : find code = find code' := by
  have hnames : declaredNames (Source.mask code) = declaredNames (Source.mask code') := by
    rw [declaredNames, declaredNames, flatMap_eq_of_forall₂ h.lines fun _ _ => namesOfLine_eq]
  unfold find
  dsimp only
  rw [hnames]
  refine h.flatMap_numbered fun x y n hxy => ?_
  simp only [hxy.words_eq, isMember_eq hxy, isKey_eq hxy]

end UndefinedName

namespace Smell

theorem rel_directive? (h : Padded multi a b) :
    Option.Rel (Reads multi a b) (directive? a) (directive? b) :=
  rel_map (h.reads.skipBlanks.char? (by decide)) fun _ _ hhash => hhash.skipBlanks

theorem isInclude_eq (h : Padded multi a b) : isInclude a = isInclude b :=
  isSome_eq_of_rel (rel_bind (rel_directive? h) fun _ _ hrest =>
    hrest.wholeWord? (w := "include") (by decide) none)

theorem isGuard_eq (before : Option Char) (h : Padded multi a b) :
    isGuard before a = isGuard before b := by
  unfold isGuard
  congr 1
  refine any_eq_of_rel (rel_directive? h) fun r s hrest => ?_
  have hifndef := hrest.wholeWord? (w := "ifndef") (by decide) none
  have honce : Option.Rel (Reads multi a b)
      ((wholeWord? "pragma" none r).bind fun cs => (skipBlanks1? cs).bind (wholeWord? "once" none))
      ((wholeWord? "pragma" none s).bind fun cs =>
        (skipBlanks1? cs).bind (wholeWord? "once" none)) :=
    rel_bind (hrest.wholeWord? (by decide) none) fun _ _ hpragma =>
      hpragma.skipBlanks1?_bind rfl fun _ _ hcs => hcs.wholeWord? (by decide) none
  rw [isSome_eq_of_rel hifndef, ← Option.isSome_bind, ← Option.isSome_bind, Option.bind_assoc,
    Option.bind_assoc, isSome_eq_of_rel honce]

theorem isGuard_nil (before : Option Char) : isGuard before [] = false := by
  simp [isGuard, directive?, skipBlanks, char?]

theorem isGuard_after_pad {e : Char} (he : isPad e) (cs : List Char) :
    isGuard (some e) cs = false := by
  have hn : e ≠ '\n' := ne_lineFeed_of_isPad he
  simp [isGuard, hn]

theorem occurs_isGuard_eq (h : Padded multi a b) : occurs isGuard a = occurs isGuard b :=
  h.occursFrom_eq (fun before _ _ => isGuard_eq before) isGuard_nil
    (fun _ cs he _ => isGuard_after_pad he cs) none

theorem missingGuard_eq (h : Padded true a b) : missingGuard a = missingGuard b := by
  unfold missingGuard
  rw [occurs_isGuard_eq h]
  generalize hx : (numbered a).find? _ = x
  generalize hy : (numbered b).find? _ = y
  have hfirst : Option.Rel (fun u v => Padded false u.1 v.1 ∧ u.2 = v.2) x y := by
    rw [← hx, ← hy]
    exact rel_find?_of_forall₂ h.numbered fun u v huv =>
      congrArg (!List.isEmpty ·) huv.1.trim_eq
  cases hfirst with
  | none => rfl
  | @some u v huv =>
    obtain ⟨hline, hn⟩ := huv
    dsimp only
    rw [isInclude_eq hline, hn]

theorem steady_usingStd? : Steady multi Eq usingStd? where
  rel before a b h :=
    rel_bind (h.reads.wholeWord? (by decide) before) fun _ _ husing =>
      husing.skipBlanks1?_bind rfl fun _ _ hspace =>
        rel_bind (hspace.wholeWord? (by decide) none) fun _ _ hnamespace =>
          hnamespace.skipBlanks1?_bind rfl fun _ _ hspace =>
            rel_bind (hspace.wholeWord? (by decide) none) fun _ _ hstd => .some ⟨rfl, hstd⟩
  atGap before cs h := by
    unfold usingStd?
    rw [wholeWord?_of_atGap (by decide) before h]
    rfl

theorem usingNamespaceStd_eq (h : Padded true a b) :
    usingNamespaceStd a = usingNamespaceStd b := by
  have hinclude := any_eq_of_forall₂ h.lines fun _ _ => isInclude_eq
  rw [usingNamespaceStd, usingNamespaceStd, hinclude]
  split_ifs
  · refine h.filterMap_numbered fun x y n hxy => ?_
    dsimp only
    rw [steady_usingStd?.find?_eq hxy]
  · rfl

theorem steady_mainHead? : Steady multi (Padded multi) mainHead? where
  rel before a b h :=
    rel_bind (h.reads.wholeWord? (by decide) before) fun _ _ hint =>
      hint.skipBlanks1?_bind rfl fun _ _ hspace =>
        rel_bind (hspace.wholeWord? (by decide) none) fun _ _ hmain =>
          rel_bind (hmain.skipBlanks.char? (by decide)) fun _ _ hopen =>
            .some ⟨hopen.padded, hopen⟩
  atGap before cs h := by
    unfold mainHead?
    rw [wholeWord?_of_atGap (by decide) before h]
    rfl

theorem blockBody?_of_isGap {c : Char} (hc : isGap c) (depth : ℕ) (cs : List Char) :
    blockBody? depth (c :: cs) = (blockBody? depth cs).map (c :: ·) := by
  have hopen : c ≠ '\x7b' := by
    rintro rfl
    exact absurd hc (by decide)
  have hclose : c ≠ '\x7d' := by
    rintro rfl
    exact absurd hc (by decide)
  rw [blockBody?.eq_def]
  dsimp only
  rw [if_neg hopen, if_neg hclose]

theorem atLineEnd_of_blockBody? (ha : AtLineEnd a) (depth : ℕ) :
    ∀ body ∈ blockBody? depth a, AtLineEnd body := by
  intro body hbody
  cases a with
  | nil => exact absurd hbody (Option.not_mem_none body)
  | cons c cs =>
    rw [blockBody?_of_isGap (atGap_cons.mp ha.atGap)] at hbody
    obtain ⟨rest, -, rfl⟩ := Option.map_eq_some_iff.mp hbody
    exact atLineEnd_cons.mpr (atLineEnd_cons.mp ha)

theorem rel_blockBody? (h : Padded multi a b) (depth : ℕ) :
    Option.Rel (Padded multi) (blockBody? depth a) (blockBody? depth b) := by
  induction h generalizing depth with
  | nil => exact .none
  | @cons c a b hc h ih =>
    have hmap : ∀ depth, Option.Rel (Padded multi) ((blockBody? depth a).map (c :: ·))
        ((blockBody? depth b).map (c :: ·)) := fun depth => rel_map (ih depth) fun _ _ => .cons hc
    rw [blockBody?.eq_def, blockBody?.eq_def]
    dsimp only
    split_ifs
    · exact hmap _
    · cases depth with
      | zero => exact .some .nil
      | succ inner => exact hmap _
    · exact hmap _
  | @pad e a b he ha h ih =>
    have hrel := rel_and_mem (ih depth)
    have hpad := rel_map (f := id) (g := (e :: ·)) (S := Padded multi) hrel fun u v huv =>
      .pad he (atLineEnd_of_blockBody? ha depth u huv.2.1) huv.1
    rwa [Option.map_id, id, ← blockBody?_of_isGap (isGap_of_isPad he)] at hpad

theorem rel_firstBlock? (h : Padded multi a b) :
    Option.Rel (Padded multi) (firstBlock? a) (firstBlock? b) := by
  have hp : ∀ c, isGap c → isBetween c = true := forall_isGap (by decide)
  rw [firstBlock?_eq, firstBlock?_eq]
  exact rel_bind ((h.reads.dropWhile_of_gap hp).char? (by decide)) fun _ _ hopen =>
    rel_blockBody? hopen.padded 0

theorem mainWithoutReturn_eq (h : Padded true a b) :
    mainWithoutReturn a = mainWithoutReturn b := by
  rw [mainWithoutReturn_eq_filterMap, mainWithoutReturn_eq_filterMap]
  refine filterMap_eq_of_forall₂ (steady_mainHead?.forall₂_findAll h) fun u v huv => ?_
  obtain ⟨hplace, hrest⟩ := huv
  have hblock := rel_firstBlock? hrest
  rw [mainReport?, mainReport?, hplace]
  generalize firstBlock? u.2 = x at hblock ⊢
  generalize firstBlock? v.2 = y at hblock ⊢
  cases hblock with
  | none => rfl
  | some hbody =>
    dsimp only
    rw [hbody.hasWord_eq (by decide)]

theorem steady_newWord? : Steady multi Eq newWord? where
  rel before a b h :=
    rel_map (h.reads.wholeWord? (by decide) before) fun _ _ hnew => ⟨rfl, hnew⟩
  atGap before cs h := by
    unfold newWord?
    rw [wholeWord?_of_atGap (by decide) before h]
    rfl

theorem newWithoutDelete_eq (h : Padded true a b) : newWithoutDelete a = newWithoutDelete b := by
  rw [newWithoutDelete, newWithoutDelete, h.hasWord_eq (by decide)]
  split_ifs
  · rfl
  · refine h.flatMap_numbered fun x y n hxy => ?_
    dsimp only
    rw [steady_newWord?.findAll_eq hxy]

theorem steady_arrow : Steady multi Eq
    fun _ cs => (['-', '>'].isPrefixOf? cs).map fun cs => ((), cs) where
  rel _ a b h :=
    rel_map (h.reads.isPrefixOf? (isSolid_iff.mp (by decide)).2) fun _ _ hrest => ⟨rfl, hrest⟩
  atGap _ cs h := by
    rw [isPrefixOf?_of_atGap (by decide) h]
    rfl

theorem arrowNearNull_eq (h : Padded true a b) : arrowNearNull a = arrowNearNull b := by
  refine h.filterMap_numbered fun x y n hxy => ?_
  dsimp only
  rw [hxy.hasWord_eq (by decide), hxy.hasWord_eq (by decide), steady_arrow.find?_eq hxy]

/-- The include guard is looked for in the text itself, all else in the masked text. -/
theorem find_of_padded {code code' : List Char} (hcode : Padded true code code')
    (h : Padded true (Source.mask code) (Source.mask code')) : find code = find code' := by
  rw [find, find, missingGuard_eq hcode, usingNamespaceStd_eq h, mainWithoutReturn_eq h,
    newWithoutDelete_eq h, arrowNearNull_eq h]

end Smell

namespace CDialect

theorem headWord?_of_atGap {cs : List Char} (h : AtGap cs) : headWord? cs = none := by
  cases cs with
  | nil => rfl
  | cons c cs =>
    have hc : isHeadStart c = false :=
      forall_isGap (p := isHeadStart) (by decide) c (atGap_cons.mp h)
    rw [headWord?, hc, if_neg Bool.false_ne_true]

theorem rel_headWord? {r s : List Char} (h : Reads multi a b r s) :
    Option.Rel (Took multi a b Eq) (headWord? r) (headWord? s) := by
  have hgap : ∀ cs, AtGap cs → headWord? cs = none := fun _ => headWord?_of_atGap
  refine h.rel_of_cons hgap hgap fun c r s _ hrs _ => ?_
  obtain ⟨ht, hd⟩ := hrs.span_of_not_gap (p := isWordChar) (forall_isGap (by decide))
  rw [headWord?, headWord?]
  split_ifs
  · exact .some ⟨by rw [ht], hd⟩
  · exact .none

section Head
variable {qualifiers : List String} {ends : List Char → Bool}

theorem rel_plainHead? (hends : ∀ r s, Padded multi r s → ends r = ends s)
    (h : Padded multi a b) : Option.Rel Eq (plainHead? ends a) (plainHead? ends b) := by
  refine rel_bind (rel_headWord? h.reads) fun u v huv => ?_
  obtain ⟨run, r⟩ := u
  obtain ⟨run', s⟩ := v
  obtain ⟨rfl, hrest⟩ := huv
  have hstar : ∀ c, isGap c → (c == '*') = false := forall_isGap (by decide)
  have hname := (hrest.skipBlanks.span_of_not_gap hstar).2.skipBlanks
  dsimp only
  rw [hends _ _ hrest.skipBlanks.padded]
  split_ifs
  · cases cutWord? run with
    | none => exact .none
    | some head => exact .some rfl
  · refine rel_bind (rel_headWord? hname) fun u v huv => ?_
    obtain ⟨name, r'⟩ := u
    obtain ⟨name', s'⟩ := v
    obtain ⟨rfl, hend⟩ := huv
    dsimp only
    rw [hends _ _ hend.skipBlanks.padded]
    split_ifs
    · exact .some rfl
    · exact .none

theorem headFrom?_of_atGap (hq : ∀ w ∈ qualifiers, isSolid w.toList) (fuel : ℕ) {cs : List Char}
    (h : AtGap cs) : headFrom? qualifiers ends fuel cs = plainHead? ends cs := by
  cases fuel with
  | zero => rfl
  | succ fuel =>
    rw [headFrom?, oneOfWords?_of_atGap hq none h]
    rfl

/-- Each qualifier takes a character at least, so the length of the text is fuel enough. -/
theorem rel_headFrom? (hq : ∀ w ∈ qualifiers, isSolid w.toList)
    (hends : ∀ r s, Padded multi r s → ends r = ends s) (h : Padded multi a b) {n m : ℕ}
    (hn : a.length ≤ n) (hm : b.length ≤ m) :
    Option.Rel Eq (headFrom? qualifiers ends n a) (headFrom? qualifiers ends m b) := by
  have hstuck : ∀ {a b : List Char} {n m : ℕ}, Padded multi a b → AtGap a →
      Option.Rel Eq (headFrom? qualifiers ends n a) (headFrom? qualifiers ends m b) := by
    intro a b n m h ha
    rw [headFrom?_of_atGap hq n ha, headFrom?_of_atGap hq m (h.atGap ha)]
    exact rel_plainHead? hends h
  induction n generalizing m a b with
  | zero =>
    obtain rfl := List.length_eq_zero_iff.mp (Nat.le_zero.mp hn)
    exact hstuck h atGap_nil
  | succ n ih =>
    cases m with
    | zero =>
      obtain rfl := List.length_eq_zero_iff.mp (Nat.le_zero.mp (Nat.le_trans h.length_le hm))
      exact hstuck h atGap_nil
    | succ m =>
      have hnil : headFrom? qualifiers ends m [] = none := by
        rw [headFrom?_of_atGap hq m atGap_nil]
        rfl
      rw [headFrom?, headFrom?, Option.bind_assoc, Option.bind_assoc]
      refine rel_or (rel_bind (rel_and_mem (h.reads.oneOfWords? hq none)) ?_)
        (rel_plainHead? hends h)
      intro u v huv
      obtain ⟨hrest, hu, hv⟩ := huv
      have hul := length_lt_of_oneOfWords? hq hu
      have hvl := length_lt_of_oneOfWords? hq hv
      refine hrest.padded.reads.skipBlanks1?_bind hnil fun r s hrs => ?_
      have hr := hrs.left.length_le
      have hs := hrs.right.length_le
      exact ih hrs.padded (by omega) (by omega)

theorem rel_head? (hq : ∀ w ∈ qualifiers, isSolid w.toList)
    (hends : ∀ r s, Padded multi r s → ends r = ends s) (h : Padded multi a b) :
    Option.Rel Eq (head? qualifiers ends a) (head? qualifiers ends b) :=
  rel_headFrom? hq hends h (Nat.le_refl _) (Nat.le_refl _)

end Head

theorem functionHead?_eq (h : Padded multi a b) : functionHead? a = functionHead? b :=
  eq_of_rel (rel_head? (by decide) (fun _ _ h => h.head?_beq (by decide)) h)

theorem variableHead?_eq (h : Padded multi a b) : variableHead? a = variableHead? b := by
  have hends : ∀ r s, Padded multi r s →
      (r.head? == some '=' || r.head? == some ';' || r.head? == some '[') =
        (s.head? == some '=' || s.head? == some ';' || s.head? == some '[') := by
    intro r s hrs
    rw [hrs.head?_beq (by decide), hrs.head?_beq (by decide), hrs.head?_beq (by decide)]
  exact eq_of_rel (h.reads.skipBlanks1?_bind rfl fun _ _ hrs =>
    rel_head? (by decide) hends hrs.padded)

theorem isDeclaration_eq (h : Padded multi a b) : isDeclaration a = isDeclaration b := by
  rw [isDeclaration, isDeclaration, variableHead?_eq h]

theorem isDeclaration_of_skipBlanks {line : List Char} (h : skipBlanks line = []) :
    isDeclaration line = false := by
  have hnone : variableHead? line = none := by
    cases line with
    | nil => rfl
    | cons c cs =>
      unfold variableHead?
      by_cases hc : isBlank c
      · rw [skipBlanks1?_of_isBlank hc, h]
        rfl
      · rw [skipBlanks1?, if_neg hc]
        rfl
  rw [isDeclaration, hnone]
  rfl

theorem endsStatement_eq (h : Padded false a b) : endsStatement a = endsStatement b := by
  rw [endsStatement, endsStatement, h.trim_eq, isDeclaration_eq h]

theorem lateDeclarationsFrom_eq {ls ls' : List (List Char)}
    (h : List.Forall₂ (Padded false) ls ls') {previous previous' : Option (List Char)}
    (hp : Option.Rel (Padded false) previous previous') (n : ℕ) :
    lateDeclarationsFrom previous n ls = lateDeclarationsFrom previous' n ls' := by
  induction h generalizing previous previous' n with
  | nil => rfl
  | @cons x y rest rest' hxy h ih =>
    have hlast : Option.Rel (Padded false) (if (trim x).isEmpty then previous else some x)
        (if (trim y).isEmpty then previous' else some y) := by
      rw [hxy.trim_eq]
      split_ifs
      · exact hp
      · exact .some hxy
    have hcolumn : isDeclaration y = true → x.takeWhile isBlank = y.takeWhile isBlank := by
      intro hd
      rcases hxy.takeWhile_eq (p := isBlank) with ht | hblank
      · exact ht
      · rw [← isDeclaration_eq hxy, isDeclaration_of_skipBlanks hblank] at hd
        exact absurd hd Bool.false_ne_true
    unfold lateDeclarationsFrom
    dsimp only
    rw [ih hlast, isDeclaration_eq hxy, any_eq_of_rel hp fun _ _ => endsStatement_eq]
    by_cases hd : isDeclaration y = true
    · rw [hcolumn hd]
    · rw [Bool.not_eq_true] at hd
      rw [hd, Bool.false_and, if_neg Bool.false_ne_true, if_neg Bool.false_ne_true]

theorem missingPrototype?_eq (h : Padded false a b) (declared : List String) (n : ℕ) :
    missingPrototype? declared n a = missingPrototype? declared n b := by
  rw [missingPrototype?, missingPrototype?, functionHead?_eq h]

theorem missingPrototypesFrom_eq {ls ls' : List (List Char)}
    (h : List.Forall₂ (Padded false) ls ls') (declared : List String) (n : ℕ) :
    missingPrototypesFrom declared n ls = missingPrototypesFrom declared n ls' := by
  induction h generalizing declared n with
  | nil => rfl
  | cons hxy h ih =>
    unfold missingPrototypesFrom
    dsimp only
    rw [hxy.contains_eq (by decide), hxy.contains_eq (by decide), hxy.words_eq,
      missingPrototype?_eq hxy, ih, ih]

theorem cppKeywordUses_eq (h : Padded true a b) : cppKeywordUses a = cppKeywordUses b := by
  refine h.flatMap_numbered fun x y n hxy => ?_
  dsimp only
  rw [hxy.words_eq]

theorem violations_of_padded {code code' : List Char}
    (h : Padded true (Source.mask code) (Source.mask code')) (declarationsFirst prototypes : Bool) :
    violations code declarationsFirst prototypes =
      violations code' declarationsFirst prototypes := by
  rw [violations, violations, cppKeywordUses_eq h, lateDeclarations, lateDeclarations,
    lateDeclarationsFrom_eq h.lines .none, missingPrototypes, missingPrototypes,
    missingPrototypesFrom_eq h.lines]

end CDialect
end SnippetLint
