import Mathlib.Data.List.Lex
import Mathlib.Data.String.Basic
import SnippetLint.Files.Collect
import SnippetLint.Proofs.Files.Walk

/-! Which files of a folder are collected, and in which order: by the names on the way, each
compared as text. -/
namespace SnippetLint

/-- The pattern can be read, and the path is one of those that it stands for. -/
def Glob.Matches (pattern path : String) : Prop :=
  ∃ tokens, parse pattern = .ok tokens ∧ fits tokens path = true

theorem Settings.excludes_eq_false_iff {settings : Settings} {path : String} :
    settings.excludes path = false ↔
      ∀ pattern ∈ settings.excludedPaths, ¬ Glob.Matches pattern path := by
  rw [Settings.excludes, List.any_eq_false]
  refine forall₂_congr fun pattern _ => ?_
  unfold Glob.Matches
  cases Glob.parse pattern <;> simp

theorem Language.isSome_ofExtension?_iff {extension : String} (h : '.' ∉ extension.toList) :
    (ofExtension? extension).isSome = true ↔
      ∃ language, extension.toLower ∈ extensions language := by
  have hdots : extension.toList.dropWhile (· == '.') = extension.toList := by
    rw [List.dropWhile_eq_self_iff]
    intro hpos hdot
    rw [beq_iff_eq] at hdot
    exact h (hdot ▸ List.getElem_mem hpos)
  have hall (language : Language) : language ∈ all := by cases language <;> decide
  simp [ofExtension?, hdots, hall]

namespace FoundFile
open FileTree

theorem nameBefore_iff {a b : String} : nameBefore a b = true ↔ a < b := by
  have hchar : (fun c d : Char => decide (c.toNat < d.toNat)) = fun c d => decide (c < d) := rfl
  rw [nameBefore, hchar, List.lex_eq_true_iff_lt, String.lt_iff_toList_lt]

theorem isBefore_iff {f g : FoundFile} : f.isBefore g = true ↔ f.steps < g.steps := by
  rw [isBefore, List.lex_eq_true_iff_lex]
  simp only [nameBefore_iff]
  rfl

theorem not_isBefore_iff {f g : FoundFile} : (!g.isBefore f) = true ↔ f.steps ≤ g.steps := by
  rw [Bool.not_eq_true', Bool.eq_false_iff, ne_eq, isBefore_iff, not_lt]

theorem pairwise_mergeSort (fs : List FoundFile) :
    (fs.mergeSort fun f g => !g.isBefore f).Pairwise (·.steps ≤ ·.steps) := by
  have h : (fs.mergeSort fun f g => !g.isBefore f).Pairwise fun f g => (!g.isBefore f) = true := by
    refine List.pairwise_mergeSort (fun f g h => ?_) (fun f g => ?_) fs
    · rw [not_isBefore_iff, not_isBefore_iff, not_isBefore_iff]
      exact le_trans
    · rw [Bool.or_eq_true, not_isBefore_iff, not_isBefore_iff]
      exact le_total _ _
  exact h.imp not_isBefore_iff.mp

variable {settings : Settings} {root : String} {t : FileTree}

/-- The wanted files of a walk that comes to its end, sorted. -/
theorem of_collect_eq_ok {fs : List FoundFile} (h : collect settings root t = .ok fs) :
    ∃ found, all root t = .ok found ∧ fs.Perm (found.filter (isWanted settings)) ∧
      fs.Pairwise (·.steps ≤ ·.steps) := by
  unfold collect at h
  cases hall : all root t with
  | error e =>
    rw [hall] at h
    cases h
  | ok found =>
    rw [hall] at h
    obtain rfl := Except.ok.inj h
    exact ⟨found, rfl, List.mergeSort_perm _ _, pairwise_mergeSort _⟩

theorem of_collect_eq_error {e : WalkError} (h : collect settings root t = .error e) :
    all root t = .error e := by
  unfold collect at h
  cases hall : all root t with
  | error e' =>
    rw [hall] at h
    exact h
  | ok found =>
    rw [hall] at h
    cases h

/-- A folder of this name is not looked into. -/
def Skipped (name : String) : Prop :=
  name.toList.head? = some '.' ∨ name = "node_modules" ∨ name = "target"

theorem isSkippedFolder_eq_false_iff {name : String} :
    isSkippedFolder name = false ↔ ¬ Skipped name := by
  simp [isSkippedFolder, Skipped, and_assoc]

def ofFile (root : String) (l : List String × FileTree) : FoundFile :=
  ⟨l.1, l.1.foldl Path.join root, l.2.content⟩

/-- No folder that a search would look into is locked. -/
def Searchable (t : FileTree) : Prop :=
  ∀ steps why, Leads t steps (.lockedFolder why) → ∃ name ∈ steps, Skipped name

/-- The file is one of the tree that a search from the root has to give. -/
structure Collected (settings : Settings) (root : String) (t : FileTree) (f : FoundFile) :
    Prop where
  leads : ∃ s, Leads t f.steps s ∧ s.isFile = true ∧ f.content = s.content
  path_eq : f.path = f.steps.foldl Path.join root
  notSkipped : ∀ name ∈ f.steps.dropLast, ¬ Skipped name
  language : ∃ name extension language, f.steps.getLast? = some name ∧
    Path.HasExtension name extension ∧ extension.toLower ∈ Language.extensions language
  notExcluded : ∀ pattern ∈ settings.excludedPaths, ¬ Glob.Matches pattern f.path

variable {fs : List FoundFile} {entries : List (String × FileTree)}

theorem ofLeaf_eq_ok {l : List String × FileTree} (h : ∀ why, l.2 ≠ .lockedFolder why) :
    ofLeaf root l = .ok (ofFile root l) := by
  obtain ⟨steps, s⟩ := l
  cases s with
  | lockedFolder why => exact absurd rfl (h why)
  | file bytes | folder entries | lockedFile why | special content => rfl

theorem mapM_ofLeaf_eq_ok_iff {ls : List (List String × FileTree)} :
    ls.mapM (ofLeaf root) = .ok fs ↔
      (∀ l ∈ ls, ∀ why, l.2 ≠ .lockedFolder why) ∧ fs = ls.map (ofFile root) := by
  induction ls generalizing fs with
  | nil => simp [pure, Except.pure, eq_comm]
  | cons l ls ih =>
    rw [List.mapM_cons, List.forall_mem_cons]
    by_cases hl : ∀ why, l.2 ≠ .lockedFolder why
    · rw [ofLeaf_eq_ok hl, and_iff_right hl]
      constructor
      · intro h
        cases hrest : ls.mapM (ofLeaf root) with
        | error e =>
          rw [hrest] at h
          cases h
        | ok rest =>
          rw [hrest] at h
          obtain rfl := Except.ok.inj h
          obtain ⟨hls, rfl⟩ := ih.mp hrest
          exact ⟨hls, rfl⟩
      · rintro ⟨hls, rfl⟩
        rw [ih.mpr ⟨hls, rfl⟩]
        rfl
    · push Not at hl
      obtain ⟨why, hwhy⟩ := hl
      have herror : ofLeaf root l = .error ⟨l.1.foldl Path.join root, why⟩ := by
        obtain ⟨steps, s⟩ := l
        obtain rfl := hwhy
        rfl
      rw [herror]
      refine iff_of_false ?_ fun h => h.1.1 why hwhy
      rintro ⟨⟩

theorem all_eq_ok_iff : all root t = .ok fs ↔
    Searchable t ∧ fs = (leaves isSkippedFolder t).map (ofFile root) := by
  rw [all, mapM_ofLeaf_eq_ok_iff]
  refine and_congr_left fun _ => ⟨fun h steps why hs => ?_, ?_⟩
  · by_contra hpass
    push Not at hpass
    refine h (steps, .lockedFolder why) (mem_leaves_iff.mpr ⟨hs, ⟨?_, ?_⟩, rfl⟩) why rfl
    · exact fun name hm =>
        isSkippedFolder_eq_false_iff.mpr (hpass name (List.dropLast_subset _ hm))
    · exact fun _ name hm => isSkippedFolder_eq_false_iff.mpr (hpass name hm)
  · rintro h ⟨steps, s⟩ hm why rfl
    obtain ⟨hs, hp, -⟩ := mem_leaves_iff.mp hm
    obtain ⟨name, hname, hskip⟩ := h steps why hs
    exact isSkippedFolder_eq_false_iff.mp (hp.last rfl name hname) hskip

theorem isWanted_iff {f : FoundFile} {name : String} (hname : Path.IsFileName name)
    (hlast : f.steps.getLast? = some name) (hpath : f.path = f.steps.foldl Path.join root) :
    isWanted settings f = true ↔
      (∃ extension language, Path.HasExtension name extension ∧
        extension.toLower ∈ Language.extensions language) ∧
      ∀ pattern ∈ settings.excludedPaths, ¬ Glob.Matches pattern f.path := by
  obtain ⟨above, hsteps⟩ := List.getLast?_eq_some_iff.mp hlast
  have hjoin : f.path = Path.join (above.foldl Path.join root) name := by
    rw [hpath, hsteps, List.foldl_append]
    rfl
  have hlanguage : (Language.ofPath? f.path).isSome = true ↔ ∃ extension language,
      Path.HasExtension name extension ∧ extension.toLower ∈ Language.extensions language := by
    rw [Language.ofPath?, Path.extension?, hjoin, hname.name?_join, Option.bind_some,
      Option.isSome_bind, Option.any_eq_true]
    refine exists_congr fun extension => ?_
    rw [Path.nameExtension?_eq_some_iff, exists_and_left]
    exact and_congr_right fun h => Language.isSome_ofExtension?_iff h.dot_not_mem
  rw [isWanted, Bool.and_eq_true, hlanguage, Bool.not_eq_true', Settings.excludes_eq_false_iff]

/-- Of what a walk comes to, the files that are wanted are those that have to be found. -/
theorem mem_filter_leaves_iff (h : Proper (.folder entries))
    (hlocked : Searchable (.folder entries)) {f : FoundFile} :
    f ∈ ((leaves isSkippedFolder (.folder entries)).map (ofFile root)).filter (isWanted settings) ↔
      Collected settings root (.folder entries) f := by
  rw [List.mem_filter, List.mem_map]
  constructor
  · rintro ⟨⟨⟨steps, s⟩, hm, rfl⟩, hwanted⟩
    obtain ⟨hs, hp, hleaf⟩ := mem_leaves_iff.mp hm
    have hfile : s.isFile = true := by
      cases s with
      | folder inside | special content => cases hleaf
      | file bytes | lockedFile why => rfl
      | lockedFolder why =>
        obtain ⟨name, hname, hskip⟩ := hlocked steps why hs
        exact absurd hskip (isSkippedFolder_eq_false_iff.mp (hp.last rfl name hname))
    cases hlast : steps.getLast? with
    | none =>
      rw [List.getLast?_eq_none_iff.mp hlast, leads_nil_iff] at hs
      subst hs
      cases hleaf
    | some name =>
      have hname := h.isFileName_of_leads hs name (List.mem_of_getLast? hlast)
      obtain ⟨⟨extension, language, hwanted⟩, hexcluded⟩ :=
        (isWanted_iff hname hlast rfl).mp hwanted
      exact ⟨⟨s, hs, hfile, rfl⟩, rfl,
        fun name hm => isSkippedFolder_eq_false_iff.mp (hp.above name hm),
        ⟨name, extension, language, hlast, hwanted⟩, hexcluded⟩
  · rintro ⟨⟨s, hs, hfile, hcontent⟩, hpath, hskip, ⟨name, extension, language, hlast, hwanted⟩,
      hexcluded⟩
    have hname := h.isFileName_of_leads hs name (List.mem_of_getLast? hlast)
    refine ⟨⟨(f.steps, s), mem_leaves_iff.mpr ⟨hs, ⟨?_, ?_⟩, isLeaf_of_isFile hfile⟩, ?_⟩,
      (isWanted_iff hname hlast hpath).mpr ⟨⟨extension, language, hwanted⟩, hexcluded⟩⟩
    · exact fun name hm => isSkippedFolder_eq_false_iff.mpr (hskip name hm)
    · intro hfolder
      cases hfolder.symm.trans (isFolder_eq_false_of_isFile hfile)
    · rw [ofFile, ← hpath, ← hcontent]

theorem exists_collect_eq_ok_iff : (∃ fs, collect settings root t = .ok fs) ↔ Searchable t := by
  constructor
  · rintro ⟨fs, hfs⟩
    obtain ⟨found, hall, -⟩ := of_collect_eq_ok hfs
    exact (all_eq_ok_iff.mp hall).1
  · intro hlocked
    have hall : all root t = .ok _ := all_eq_ok_iff.mpr ⟨hlocked, rfl⟩
    cases hfs : collect settings root t with
    | ok fs => exact ⟨fs, rfl⟩
    | error e =>
      rw [of_collect_eq_error hfs] at hall
      cases hall

theorem mem_collect_iff (h : Proper (.folder entries))
    (hfs : collect settings root (.folder entries) = .ok fs) {f : FoundFile} :
    f ∈ fs ↔ Collected settings root (.folder entries) f := by
  obtain ⟨found, hall, hperm, -⟩ := of_collect_eq_ok hfs
  obtain ⟨hlocked, rfl⟩ := all_eq_ok_iff.mp hall
  rw [hperm.mem_iff, mem_filter_leaves_iff h hlocked]

/-- No way leads to two files, so that the files are not only sorted but apart. -/
theorem pairwise_steps_lt (h : Proper t) (hfs : collect settings root t = .ok fs) :
    fs.Pairwise (·.steps < ·.steps) := by
  obtain ⟨found, hall, hperm, hsorted⟩ := of_collect_eq_ok hfs
  obtain ⟨-, rfl⟩ := all_eq_ok_iff.mp hall
  have hfound : ((leaves isSkippedFolder t).map (ofFile root)).Pairwise (·.steps ≠ ·.steps) :=
    (pairwise_leaves t h).map _ fun _ _ => id
  have hdistinct : fs.Pairwise (·.steps ≠ ·.steps) :=
    (hperm.pairwise_iff Ne.symm).mpr (hfound.filter _)
  exact (hsorted.and hdistinct).imp fun hfg => lt_of_le_of_ne hfg.1 hfg.2

/-- A folder is searched unless a folder in it cannot be looked into. The search gives the files
that it has to, each once, in the order of their paths. -/
theorem collect_folder (h : Proper (.folder entries)) (settings : Settings) (root : String) :
    ((∃ fs, collect settings root (.folder entries) = .ok fs) ↔ Searchable (.folder entries)) ∧
    ∀ fs, collect settings root (.folder entries) = .ok fs →
      fs.Pairwise (fun f g => Path.components f.path < Path.components g.path) ∧
      ∀ f, f ∈ fs ↔ Collected settings root (.folder entries) f := by
  refine ⟨exists_collect_eq_ok_iff, fun fs hfs => ⟨?_, fun f => mem_collect_iff h hfs⟩⟩
  have hnamed {f : FoundFile} (hf : Collected settings root (.folder entries) f) :
      ∀ name ∈ f.steps, Path.IsFileName name := by
    obtain ⟨s, hs, -⟩ := hf.leads
    exact h.isFileName_of_leads hs
  refine (pairwise_steps_lt h hfs).imp_of_mem fun {f g} hmf hmg hlt => ?_
  have hf := (mem_collect_iff h hfs).mp hmf
  have hg := (mem_collect_iff h hfs).mp hmg
  rw [hf.path_eq, hg.path_eq]
  exact Path.components_foldl_join_lt (hnamed hf) (hnamed hg) root hlt

namespace Sample

def sources : List (String × FileTree) :=
  [("util.c", .file .empty), ("App.JS", .file .empty), ("notes", .file .empty),
    ("pipe.c", .special (.ok .empty))]

/-- Sources with a pipe among them, and folders that a search passes over or excludes. -/
def project : List (String × FileTree) := [
  (".git", .lockedFolder .denied),
  ("dist", .folder [("app.js", .file .empty)]),
  ("src", .folder sources),
  ("target", .folder [("out.c", .file .empty)])]

def withoutDist : Settings := { Settings.standard with excludedPaths := ["**/dist/**"] }

theorem proper_project : Proper (.folder project) := by
  have hfile : Proper (.file .empty) := proper_of_forall_ne (by simp)
  have hlocked : Proper (.lockedFolder .denied) := proper_of_forall_ne (by simp)
  have hpipe : Proper (.special (.ok .empty)) := proper_of_forall_ne (by simp)
  simp only [project, sources, proper_folder_iff, List.forall_mem_cons, List.not_mem_nil,
    IsEmpty.forall_iff, implies_true, List.map_cons, List.map_nil, hfile, hlocked, hpipe]
  decide +kernel

theorem searchable_project : Searchable (.folder project) := by
  intro steps why h
  have hm : (steps, .lockedFolder why) ∈ leaves (fun _ => false) (.folder project) :=
    mem_leaves_iff.mpr ⟨h, ⟨by simp, by simp⟩, rfl⟩
  obtain ⟨rfl, rfl⟩ : steps = [".git"] ∧ why = .denied := by
    simpa [project, sources, leaves, leavesOf, isFolder] using hm
  exact ⟨".git", List.mem_singleton_self _, .inl rfl⟩

theorem collected_app : Collected withoutDist "target" (.folder project)
    ⟨["src", "App.JS"], "target/src/App.JS", .ok .empty⟩ where
  leads := by
    have hfolder : ("src", .folder sources) ∈ project := by simp [project]
    have hfile : ("App.JS", .file .empty) ∈ sources := by simp [sources]
    exact ⟨.file .empty, .into hfolder (.into hfile (.here _)), rfl, rfl⟩
  path_eq := by decide +kernel
  notSkipped := by simp [Skipped]
  language := ⟨"App.JS", "JS", .javascript, rfl, ⟨"App", by decide, by decide, by decide⟩,
    by decide +kernel⟩
  notExcluded := by
    have hno : withoutDist.excludes "target/src/App.JS" = false := by decide +kernel
    exact Settings.excludes_eq_false_iff.mp hno

theorem not_collected_pipe {f : FoundFile}
    (h : Collected withoutDist "target" (.folder project) f) : f.steps ≠ ["src", "pipe.c"] := by
  intro hsteps
  obtain ⟨s, hs, hfile, -⟩ := h.leads
  obtain rfl : s = .special (.ok .empty) := by
    simpa [hsteps, project, sources, leads_folder_cons_iff, leads_nil_iff] using hs
  cases hfile

theorem collect_project : Proper (.folder project) ∧
    ∃ fs, collect withoutDist "target" (.folder project) = .ok fs ∧
      fs.Pairwise (fun f g => Path.components f.path < Path.components g.path) ∧
      (∀ f, f ∈ fs ↔ Collected withoutDist "target" (.folder project) f) ∧
      ⟨["src", "App.JS"], "target/src/App.JS", .ok .empty⟩ ∈ fs ∧
      ∀ f ∈ fs, f.steps ≠ ["src", "pipe.c"] := by
  have h := collect_folder proper_project withoutDist "target"
  obtain ⟨fs, hfs⟩ := h.1.mpr searchable_project
  obtain ⟨hsorted, hmem⟩ := h.2 fs hfs
  exact ⟨proper_project, fs, hfs, hsorted, hmem, (hmem _).mpr collected_app,
    fun f hf => not_collected_pipe ((hmem f).mp hf)⟩

end Sample
end FoundFile
end SnippetLint
