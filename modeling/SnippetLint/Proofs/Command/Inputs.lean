import Mathlib.Data.List.Forall2
import SnippetLint.Command.Check
import SnippetLint.Proofs.Files.Collected

/-! What the paths of a command stand for, and what keeps them from standing for anything. -/
namespace SnippetLint.Check

section
variable {ε α β : Type}

/-- `R` holds of a success and `Q` of a failure. -/
def Meets (R : α → Prop) (Q : ε → Prop) : Except ε α → Prop
  | .ok a => R a
  | .error e => Q e

variable {R : α → Prop} {Q : ε → Prop}

theorem Meets.bind {S : β → Prop} {x : Except ε α} {f : α → Except ε β} (h : Meets R Q x)
    (hf : ∀ a, R a → Meets S Q (f a)) : Meets S Q (x >>= f) := by
  cases x with
  | ok a => exact hf a h
  | error e => exact h

theorem Meets.imp {S : α → Prop} {x : Except ε α} (h : Meets R Q x) (hS : ∀ a, R a → S a) :
    Meets S Q x := by
  cases x with
  | ok a => exact hS a h
  | error e => exact h

theorem Meets.imp_error {T : ε → Prop} {x : Except ε α} (h : Meets R Q x) (hT : ∀ e, Q e → T e) :
    Meets R T x := by
  cases x with
  | ok a => exact h
  | error e => exact hT e h

theorem meets_mapError {δ : Type} {T : δ → Prop} {g : ε → δ} {x : Except ε α}
    (h : Meets R (fun e => T (g e)) x) : Meets R T (x.mapError g) := by
  cases x <;> exact h

theorem meets_elim {o : Option α} {e : ε} (he : o = none → Q e) :
    Meets (fun a => o = some a) Q (o.elim (.error e) .ok) := by
  cases o with
  | none => exact he rfl
  | some a => rfl

theorem meets_mapM {f : α → Except ε β} {S : α → β → Prop} {xs : List α}
    (h : ∀ x ∈ xs, Meets (S x) Q (f x)) : Meets (List.Forall₂ S xs) Q (xs.mapM f) := by
  induction xs with
  | nil => exact .nil
  | cons x xs ih =>
    obtain ⟨hx, hxs⟩ := List.forall_mem_cons.mp h
    rw [List.mapM_cons]
    exact hx.bind fun y hy => (ih hxs).bind fun ys hys => .cons hy hys

end

/-- The code is not to be had. -/
inductive Unreadable (content : Except FileError ByteArray) : FileError → Prop
  | locked {why : FileError} (h : content = .error why) : Unreadable content why
  | notText {bytes : ByteArray} (h : content = .ok bytes) (hu : String.fromUTF8? bytes = none) :
      Unreadable content .notText

/-- The code is the text of the bytes. -/
def IsCode (content : Except FileError ByteArray) (code : String) : Prop :=
  ∃ bytes, content = .ok bytes ∧ String.fromUTF8? bytes = some code

theorem IsCode.not_unreadable {content : Except FileError ByteArray} {code : String}
    {why : FileError} (h : IsCode content code) : ¬ Unreadable content why := by
  obtain ⟨bytes, hb, hu⟩ := h
  intro hr
  cases hr with
  | locked h => cases hb.symm.trans h
  | notText h hn =>
    obtain rfl := Except.ok.inj (hb.symm.trans h)
    cases hu.symm.trans hn

theorem meets_text (content : Except FileError ByteArray) :
    Meets (IsCode content) (Unreadable content) (content >>= textOf) := by
  cases content with
  | error why => exact .locked rfl
  | ok bytes =>
    change Meets _ _ (textOf bytes)
    unfold textOf
    split
    · exact ⟨bytes, rfl, ‹_›⟩
    · exact .notText rfl ‹_›

namespace Plan
variable (p : Plan) (look : String → Except FileError FileTree)

/-- The file with this path and content makes the snippet. -/
structure Reads (path : String) (content : Except FileError ByteArray) (s : Snippet) : Prop where
  language_eq : p.language.or (Language.ofPath? path) = some s.language
  isCode : IsCode content s.code
  title_eq : s.title = path

/-- The file makes no snippet. -/
inductive RefusesFile (path : String) (content : Except FileError ByteArray) : Failure → Prop
  | unknownLanguage (h : p.language.or (Language.ofPath? path) = none) :
      RefusesFile path content (.unknownLanguage path)
  | unreadable {why : FileError} (h : Unreadable content why) :
      RefusesFile path content (.unreadable path why)

/-- The path, where `input` is what the input has left, stands for the snippets: those of a folder
by the order of their files, of which none that is wanted is missing. -/
inductive Resolves : String → ByteArray → List Snippet → Prop
  | input {input : ByteArray} {s : Snippet} (hl : p.language = some s.language)
      (hc : IsCode (.ok input) s.code) (ht : s.title = p.title.getD p.settings.defaultTitle) :
      Resolves "-" input [s]
  | file {path : String} {input : ByteArray} {t : FileTree} {s : Snippet} (hp : path ≠ "-")
      (ht : look path = .ok t) (hf : t.isFolder = false) (hs : p.Reads path t.content s) :
      Resolves path input [s]
  | folder {path : String} {input : ByteArray} {t : FileTree} {found fs : List FoundFile}
      {ss : List Snippet} (hp : path ≠ "-") (ht : look path = .ok t) (hf : t.isFolder = true)
      (ha : FoundFile.all path t = .ok found)
      (hperm : fs.Perm (found.filter (FoundFile.isWanted p.settings)))
      (hsorted : fs.Pairwise (·.steps ≤ ·.steps))
      (hs : List.Forall₂ (fun f s => p.Reads f.path f.content s) fs ss) : Resolves path input ss

/-- The path stands for nothing, for this reason. -/
inductive Refuses : String → ByteArray → Failure → Prop
  | noLanguage {input : ByteArray} (h : p.language = none) : Refuses "-" input .inputWithoutLanguage
  | input {input : ByteArray} {why : FileError} (h : Unreadable (.ok input) why) :
      Refuses "-" input (.inputUnreadable why)
  | inaccessible {path : String} {input : ByteArray} {why : FileError} (hp : path ≠ "-")
      (h : look path = .error why) : Refuses path input (.inaccessible path why)
  | walk {path : String} {input : ByteArray} {t : FileTree} {e : WalkError} (hp : path ≠ "-")
      (ht : look path = .ok t) (hf : t.isFolder = true) (h : FoundFile.all path t = .error e) :
      Refuses path input (.walk e)
  | file {path : String} {input : ByteArray} {t : FileTree} {e : Failure} (hp : path ≠ "-")
      (ht : look path = .ok t) (hf : t.isFolder = false) (h : p.RefusesFile path t.content e) :
      Refuses path input e
  | found {path : String} {input : ByteArray} {t : FileTree} {found : List FoundFile}
      {f : FoundFile} {e : Failure} (hp : path ≠ "-") (ht : look path = .ok t)
      (hf : t.isFolder = true) (ha : FoundFile.all path t = .ok found) (hm : f ∈ found)
      (hw : f.isWanted p.settings = true) (h : p.RefusesFile f.path f.content e) :
      Refuses path input e

/-- Each path with what the input has left for it. The first dash takes all of it. -/
def withInput : ByteArray → List String → List (String × ByteArray)
  | _, [] => []
  | input, path :: paths =>
    (path, input) :: withInput (if path = "-" then .empty else input) paths

/-- The paths stand for the snippets, one path after another. -/
def ResolvesAll (xs : List (String × ByteArray)) (ss : List Snippet) : Prop :=
  ∃ sss, List.Forall₂ (fun x => p.Resolves look x.1 x.2) xs sss ∧ ss = sss.flatten

/-- The first path that is refused is so for this reason. -/
inductive FirstRefused : List (String × ByteArray) → Failure → Prop
  | here {path : String} {input : ByteArray} {xs : List (String × ByteArray)} {e : Failure}
      (h : p.Refuses look path input e) : FirstRefused ((path, input) :: xs) e
  | there {path : String} {input : ByteArray} {xs : List (String × ByteArray)} {e : Failure}
      {ss : List Snippet} (hs : p.Resolves look path input ss) (h : FirstRefused xs e) :
      FirstRefused ((path, input) :: xs) e

variable {p look} {path : String} {input : ByteArray}

theorem Reads.eq {content : Except FileError ByteArray} {s t : Snippet}
    (hs : p.Reads path content s) (ht : p.Reads path content t) : s = t := by
  obtain ⟨hl, ⟨bytes, hb, hu⟩, htitle⟩ := hs
  obtain ⟨hl', ⟨bytes', hb', hu'⟩, htitle'⟩ := ht
  obtain rfl := Except.ok.inj (hb.symm.trans hb')
  cases s
  cases t
  rw [Snippet.mk.injEq]
  exact ⟨Option.some.inj (hu.symm.trans hu'), Option.some.inj (hl.symm.trans hl'),
    htitle.trans htitle'.symm⟩

theorem Reads.not_refusesFile {content : Except FileError ByteArray} {s : Snippet} {e : Failure}
    (h : p.Reads path content s) : ¬ p.RefusesFile path content e := by
  intro hr
  cases hr with
  | unknownLanguage hl => cases h.language_eq.symm.trans hl
  | unreadable hu => exact h.isCode.not_unreadable hu

theorem not_refusesFile_of_reads {fs : List FoundFile} {ss : List Snippet}
    (h : List.Forall₂ (fun f s => p.Reads f.path f.content s) fs ss) :
    ∀ f ∈ fs, ∀ {e}, ¬ p.RefusesFile f.path f.content e := by
  induction h with
  | nil => exact List.forall_mem_nil _
  | cons h _ ih => exact List.forall_mem_cons.mpr ⟨h.not_refusesFile, ih⟩

/-- What is resolved is not refused. -/
theorem Resolves.not_refuses {ss : List Snippet} {e : Failure} (h : p.Resolves look path input ss) :
    ¬ p.Refuses look path input e := by
  intro hr
  cases h with
  | input hl hc _ =>
    cases hr with
    | noLanguage hn => cases hl.symm.trans hn
    | input hu => exact hc.not_unreadable hu
    | inaccessible hp | walk hp | file hp | found hp => exact hp rfl
  | file hp ht hf hs =>
    cases hr with
    | noLanguage | input => exact hp rfl
    | inaccessible _ he => cases ht.symm.trans he
    | walk _ ht' hf' | found _ ht' hf' =>
      obtain rfl := Except.ok.inj (ht.symm.trans ht')
      cases hf.symm.trans hf'
    | file _ ht' _ he =>
      obtain rfl := Except.ok.inj (ht.symm.trans ht')
      exact hs.not_refusesFile he
  | folder hp ht hf ha hperm _ hs =>
    -- the walk gives one list only, and each wanted file of it has been read
    cases hr with
    | noLanguage | input => exact hp rfl
    | inaccessible _ he => cases ht.symm.trans he
    | walk _ ht' _ he =>
      obtain rfl := Except.ok.inj (ht.symm.trans ht')
      cases ha.symm.trans he
    | file _ ht' hf' =>
      obtain rfl := Except.ok.inj (ht.symm.trans ht')
      cases hf.symm.trans hf'
    | found _ ht' _ ha' hm hw he =>
      obtain rfl := Except.ok.inj (ht.symm.trans ht')
      obtain rfl := Except.ok.inj (ha.symm.trans ha')
      have hmem := hperm.mem_iff.mpr (List.mem_filter.mpr ⟨hm, hw⟩)
      exact not_refusesFile_of_reads hs _ hmem he

theorem meets_snippetOfFile (path : String) (content : Except FileError ByteArray) :
    Meets (p.Reads path content) (p.RefusesFile path content) (p.snippetOfFile path content) := by
  unfold snippetOfFile
  refine (meets_elim .unknownLanguage).bind fun language hl => ?_
  have hcode : Meets (IsCode content) (p.RefusesFile path content)
      ((content >>= textOf).mapError (.unreadable path)) :=
    meets_mapError ((meets_text content).imp_error fun _ h => .unreadable h)
  exact hcode.bind fun code hc => ⟨hl, hc, rfl⟩

theorem meets_snippetOfInput (input : ByteArray) :
    Meets (fun s => p.Resolves look "-" input [s]) (p.Refuses look "-" input)
      (p.snippetOfInput input) := by
  unfold snippetOfInput
  refine (meets_elim .noLanguage).bind fun language hl => ?_
  have hcode : Meets (IsCode (.ok input)) (p.Refuses look "-" input)
      ((textOf input).mapError .inputUnreadable) :=
    meets_mapError ((meets_text (.ok input)).imp_error fun _ h => .input h)
  exact hcode.bind fun code hc => .input hl hc rfl

theorem meets_snippetsAt (hp : path ≠ "-") (input : ByteArray) :
    Meets (p.Resolves look path input) (p.Refuses look path input) (p.snippetsAt look path) := by
  unfold snippetsAt
  have hlook : Meets (fun t => look path = .ok t) (p.Refuses look path input)
      ((look path).mapError (.inaccessible path)) := by
    cases h : look path with
    | ok t => rfl
    | error why => exact .inaccessible hp h
  refine hlook.bind fun t ht => ?_
  split_ifs with hf
  · have hcollect : Meets (fun fs => ∃ found, FoundFile.all path t = .ok found ∧
          fs.Perm (found.filter (FoundFile.isWanted p.settings)) ∧ fs.Pairwise (·.steps ≤ ·.steps))
        (p.Refuses look path input) ((FoundFile.collect p.settings path t).mapError .walk) := by
      cases h : FoundFile.collect p.settings path t with
      | ok fs => exact FoundFile.of_collect_eq_ok h
      | error e => exact .walk hp ht hf (FoundFile.of_collect_eq_error h)
    refine hcollect.bind fun fs ⟨found, ha, hperm, hsorted⟩ => ?_
    have hread : ∀ f ∈ fs, Meets (p.Reads f.path f.content) (p.Refuses look path input)
        (p.snippetOfFile f.path f.content) := by
      intro f hm
      obtain ⟨hm, hw⟩ := List.mem_filter.mp (hperm.mem_iff.mp hm)
      exact (meets_snippetOfFile f.path f.content).imp_error fun _ h => .found hp ht hf ha hm hw h
    exact (meets_mapM hread).imp fun ss hs => .folder hp ht hf ha hperm hsorted hs
  · have hf : t.isFolder = false := Bool.eq_false_iff.mpr hf
    have hfile : Meets (p.Reads path t.content) (p.Refuses look path input)
        (p.snippetOfFile path t.content) :=
      (meets_snippetOfFile path t.content).imp_error fun _ h => .file hp ht hf h
    exact hfile.bind fun s hs => .file hp ht hf hs

theorem meets_cons {α : Type} {xs : List (String × ByteArray)} {x : Except Failure α}
    {f : α → List Snippet} {rest : Except Failure (List Snippet)}
    (hx : Meets (fun a => p.Resolves look path input (f a)) (p.Refuses look path input) x)
    (hrest : Meets (p.ResolvesAll look xs) (p.FirstRefused look xs) rest) :
    Meets (p.ResolvesAll look ((path, input) :: xs)) (p.FirstRefused look ((path, input) :: xs))
      (x >>= fun a => rest >>= fun ss => pure (f a ++ ss)) := by
  refine (hx.imp_error fun _ h => .here h).bind fun a ha => ?_
  refine (hrest.imp_error fun _ h => .there ha h).bind fun ss hss => ?_
  obtain ⟨sss, hsss, rfl⟩ := hss
  exact ⟨f a :: sss, .cons ha hsss, rfl⟩

/-- The snippets are those that the paths stand for, unless one of the paths is refused. -/
theorem meets_snippets (paths : List String) (input : ByteArray) :
    Meets (p.ResolvesAll look (withInput input paths)) (p.FirstRefused look (withInput input paths))
      (p.snippets look input paths) := by
  induction paths generalizing input with
  | nil => exact ⟨[], .nil, rfl⟩
  | cons path paths ih =>
    unfold snippets withInput
    split_ifs with hp
    · subst hp
      exact meets_cons (meets_snippetOfInput input) (ih .empty)
    · exact meets_cons (meets_snippetsAt hp input) (ih input)

end Plan
end SnippetLint.Check
