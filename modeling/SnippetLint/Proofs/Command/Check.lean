import SnippetLint.Proofs.Command.Inputs
import SnippetLint.Proofs.Report.Contents

/-! A check reports on all that its paths stand for, or on nothing. -/
namespace SnippetLint

/-- The result is about the snippet; an empty title has been replaced. -/
structure Result.IsAbout (settings : Settings) (s : Snippet) (r : Result) : Prop where
  language_eq : r.language = s.language
  code_eq : r.code = s.code
  title_eq : r.title = if s.title.isEmpty then settings.defaultTitle else s.title

theorem Snippet.isAbout_analyze (parse : Parser) (settings : Settings) (s : Snippet) :
    (s.analyze parse settings).IsAbout settings s := by
  unfold analyze
  cases h : s.language <;> exact ⟨h.symm, rfl, rfl⟩

theorem Snippet.isAbout_analyzeAll (parse : Parser) (settings : Settings) (ss : List Snippet) :
    List.Forall₂ (Result.IsAbout settings) ss (analyzeAll parse settings ss) := by
  rw [analyzeAll, List.forall₂_map_right_iff, List.forall₂_same]
  exact fun s _ => s.isAbout_analyze parse settings

namespace Check
namespace Plan
variable {p : Plan} {look : String → Except FileError FileTree} {xs : List (String × ByteArray)}

theorem ResolvesAll.not_refuses {ss : List Snippet} (h : p.ResolvesAll look xs ss) :
    ∀ x ∈ xs, ∀ {e}, ¬ p.Refuses look x.1 x.2 e := by
  obtain ⟨sss, hsss, -⟩ := h
  induction hsss with
  | nil => exact List.forall_mem_nil _
  | cons h _ ih => exact List.forall_mem_cons.mpr ⟨h.not_refuses, ih⟩

theorem FirstRefused.exists_refuses {e : Failure} (h : p.FirstRefused look xs e) :
    ∃ x ∈ xs, p.Refuses look x.1 x.2 e := by
  induction h with
  | here h => exact ⟨_, List.mem_cons_self, h⟩
  | there _ _ ih =>
    obtain ⟨x, hx, h⟩ := ih
    exact ⟨x, List.mem_cons_of_mem _ hx, h⟩

theorem retitle_eq_nil_iff {ss : List Snippet} : p.retitle ss = [] ↔ ss = [] := by
  unfold retitle
  split <;> simp

/-- A path that names no folder stands for nothing but the snippet of what it names. -/
theorem Resolves.eq_of_not_isFolder {path : String} {input : ByteArray} {t : FileTree} {s : Snippet}
    {ss : List Snippet} (h : p.Resolves look path input ss) (hp : path ≠ "-")
    (ht : look path = .ok t) (hf : t.isFolder = false) (hs : p.Reads path t.content s) :
    ss = [s] := by
  cases h with
  | input => exact absurd rfl hp
  | file _ ht' _ hs' =>
    obtain rfl := Except.ok.inj (ht.symm.trans ht')
    rw [hs.eq hs']
  | folder _ ht' hf' =>
    obtain rfl := Except.ok.inj (ht.symm.trans ht')
    cases hf.symm.trans hf'

end Plan

/-- The text is a report on the results in the format. -/
inductive Reports (color : Bool) (rs : List Result) : Format → String → Prop
  | pretty {text : String} (h : Report.IsPretty color rs text) : Reports color rs .pretty text
  | json {v : JsonValue} {text : List Char} (h : Report.IsJson rs v) (hw : v.Written text) :
      Reports color rs .json (String.ofList text ++ "\n")

theorem reports_report (color : Bool) (rs : List Result) (format : Format) :
    Reports color rs format (report color rs format) := by
  cases format with
  | pretty => exact .pretty (Report.isPretty_pretty color rs)
  | json =>
    have h : Reports color rs .json (String.ofList (Report.json rs).pretty.toList ++ "\n") :=
      .json (Report.isJson_json rs) (Report.json rs).written_pretty
    rwa [String.ofList_toList] at h

section
variable {w : World} {a : CheckArguments} {format : Format} {language : Option Language}
  {settings : Settings} (hf : Format.ofName? a.format = some format)
  (hl : a.language.mapM Language.ofName = .ok language)
  (hs : Settings.discover w.look a.settings (Settings.candidates w.folder w.userSettings) =
    .ok settings)
include hf hl hs

theorem prepare_eq :
    let p : Plan := ⟨language, a.title, settings⟩
    prepare w a = (p.snippets w.look w.input a.paths).map
      fun ss => (format, settings, p.retitle ss) := by
  intro p
  unfold prepare
  rw [hf, hl, hs]
  change (p.snippets w.look w.input a.paths >>= fun ss => pure (format, settings, p.retitle ss)) = _
  cases p.snippets w.look w.input a.paths <;> rfl

end

namespace Sample

/-- There is one file. -/
def world : World where
  look path := if path = "a.c" then .ok (.file "int x;\n".toUTF8) else .error .missing
  input := .empty
  folder := "home"
  userSettings := none
  color := false

def arguments (paths : List String) : CheckArguments where
  paths := paths
  language := none
  title := none
  format := "json"
  settings := none
  failOnWarnings := false

def parser : Parser := fun _ _ => none

def plan : Plan := ⟨none, none, .standard⟩

def snippet : Snippet := ⟨"int x;\n", .c, "a.c"⟩

theorem reads_snippet : plan.Reads "a.c" (.ok "int x;\n".toUTF8) snippet :=
  ⟨by decide +kernel, ⟨_, rfl, by decide +kernel⟩, rfl⟩

theorem resolves_iff {input : ByteArray} {ss : List Snippet} :
    plan.Resolves world.look "a.c" input ss ↔ ss = [snippet] := by
  constructor
  · exact fun h => h.eq_of_not_isFolder (by decide) rfl rfl reads_snippet
  · rintro rfl
    exact .file (by decide) rfl rfl reads_snippet

theorem resolvesAll_twice {ss : List Snippet}
    (h : plan.ResolvesAll world.look (Plan.withInput .empty ["a.c", "a.c"]) ss) :
    ss = [snippet, snippet] := by
  obtain ⟨sss, hsss, rfl⟩ := h
  cases hsss with
  | cons h hsss =>
    cases hsss with
    | cons h' hnil =>
      cases hnil
      rw [resolves_iff.mp h, resolves_iff.mp h']
      rfl

example : (run parser world (arguments ["a.c", "a.c"])).exit = 0 := by
  decide +kernel

end Sample

end Check
end SnippetLint
