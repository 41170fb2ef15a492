import Mathlib.Data.List.DropRight
import Mathlib.Data.Prod.Lex
import Mathlib.Data.String.Basic
import SnippetLint.Files.Tree

/-! Paths as lists of components, by which they are compared. A name put below a folder is one
component more, whatever the text of the folder's path looks like. -/
namespace SnippetLint.Path

inductive Component where
  | root
  | here
  | up
  | name (text : String)
deriving DecidableEq

namespace Component

/-- What a component is compared by: its kind, then the text of a name. -/
def key : Component → ℕ ×ₗ String
  | root => toLex (0, "")
  | here => toLex (1, "")
  | up => toLex (2, "")
  | name text => toLex (3, text)

theorem key_injective : Function.Injective key := by
  intro a b h
  cases a <;> cases b <;> simp_all [key]

instance : LinearOrder Component := LinearOrder.lift' key key_injective

theorem name_lt_name_iff {a b : String} : name a < name b ↔ a < b := by
  change key (name a) < key (name b) ↔ a < b
  simp [key, Prod.Lex.toLex_lt_toLex]

def ofPart (part : String) : Component := if part = ".." then up else name part

end Component

/-- The parts that lead somewhere. -/
def stepsOf (path : String) : List String := (parts path).filter (!isIdle ·)

/-- Where the first step sets out from, if the path says so. -/
def startOf (path : String) : List Component :=
  if path.toList.head? = some '/' then [.root]
  else if (parts path).head? = some "." then [.here]
  else []

def components (path : String) : List Component :=
  startOf path ++ (stepsOf path).map Component.ofPart

/-- A name that a file or a folder can have. -/
structure IsFileName (name : String) : Prop where
  notIdle : isIdle name = false
  notUp : name ≠ ".."
  noSlash : '/' ∉ name.toList

instance : DecidablePred IsFileName := fun name =>
  decidable_of_iff (isIdle name = false ∧ name ≠ ".." ∧ '/' ∉ name.toList)
    ⟨fun h => ⟨h.1, h.2.1, h.2.2⟩, fun h => ⟨h.notIdle, h.notUp, h.noSlash⟩⟩

variable {folder name extension : String}

theorem parts_append_slash (a b : String) : parts (a ++ "/" ++ b) = parts a ++ parts b := by
  have hslash : (a ++ "/" ++ b).toList = a.toList ++ '/' :: b.toList := by simp
  rw [parts, hslash, List.splitOn_append_cons_self, List.map_append]
  rfl

theorem head?_parts_append_slash (a b : String) :
    (parts (a ++ "/" ++ b)).head? = (parts a).head? := by
  have hne : parts a ≠ [] := by simp [parts]
  rw [parts_append_slash, List.head?_append_of_ne_nil _ hne]

theorem IsFileName.parts_eq (h : IsFileName name) : parts name = [name] := by
  rw [parts, List.splitOn_eq_singleton h.noSlash]
  simp

/-- A slash comes in between, unless one is there. -/
theorem exists_join_eq (h : folder ≠ "") (name : String) : ∃ above,
    join folder name = above ++ "/" ++ name ∧ (folder = above ∨ folder = above ++ "/") := by
  have hempty : folder.isEmpty = false := by
    rw [Bool.eq_false_iff, ne_eq, String.isEmpty_iff]
    exact h
  unfold join
  by_cases hend : folder.toList.getLast? = some '/'
  · obtain ⟨above, habove⟩ := List.getLast?_eq_some_iff.mp hend
    have hfolder : folder = String.ofList above ++ "/" := by
      rw [← String.toList_inj, habove]
      simp
    refine ⟨String.ofList above, ?_, .inr hfolder⟩
    rw [if_pos (by simp [hend]), ← hfolder]
  · exact ⟨folder, by rw [if_neg (by simp [hempty, hend])], .inl rfl⟩

theorem IsFileName.stepsOf_join (h : IsFileName name) (folder : String) :
    stepsOf (join folder name) = stepsOf folder ++ [name] := by
  have hname : stepsOf name = [name] := by simp [stepsOf, h.parts_eq, h.notIdle]
  by_cases hfolder : folder = ""
  · subst hfolder
    exact hname
  · obtain ⟨above, hjoin, habove⟩ := exists_join_eq hfolder name
    have hsteps : stepsOf (above ++ "/" ++ name) = stepsOf above ++ [name] := by
      rw [stepsOf, parts_append_slash, List.filter_append, ← stepsOf, ← stepsOf, hname]
    rw [hjoin, hsteps]
    rcases habove with rfl | rfl
    · rfl
    · have hslash : stepsOf (above ++ "/") = stepsOf above ++ stepsOf "" := by
        rw [stepsOf, ← String.append_empty (s := above ++ "/"), parts_append_slash,
          List.filter_append]
        rfl
      rw [hslash]
      simp [stepsOf, parts, isIdle]

theorem IsFileName.startOf_join (h : IsFileName name) (folder : String) :
    startOf (join folder name) = startOf folder := by
  by_cases hfolder : folder = ""
  · subst hfolder
    have hjoin : join "" name = name := rfl
    have hslash : name.toList.head? ≠ some '/' := fun hc => h.noSlash (List.mem_of_head? hc)
    have hdot : name ≠ "." := by
      rintro rfl
      exact absurd h.notIdle (by decide)
    rw [hjoin, startOf, if_neg hslash, h.parts_eq, if_neg (by simpa using hdot)]
    decide
  · obtain ⟨above, hjoin, habove⟩ := exists_join_eq hfolder name
    have hparts : (parts folder).head? = (parts above).head? := by
      rcases habove with rfl | rfl
      · rfl
      · rw [← String.append_empty (s := above ++ "/"), head?_parts_append_slash]
    have hhead : (above ++ "/" ++ name).toList.head? = folder.toList.head? := by
      rcases habove with rfl | rfl
      · obtain ⟨c, cs, hc⟩ := List.exists_cons_of_ne_nil (mt String.toList_eq_nil_iff.mp hfolder)
        simp [hc]
      · cases hc : above.toList <;> simp [hc]
    rw [hjoin, startOf, startOf, head?_parts_append_slash, hparts, hhead]

theorem IsFileName.components_join (h : IsFileName name) (folder : String) :
    components (join folder name) = components folder ++ [.name name] := by
  rw [components, components, h.startOf_join, h.stepsOf_join, List.map_append, List.append_assoc,
    List.map_singleton, Component.ofPart, if_neg h.notUp]

theorem components_foldl_join {steps : List String} (h : ∀ name ∈ steps, IsFileName name)
    (root : String) :
    components (steps.foldl join root) = components root ++ steps.map .name := by
  induction steps generalizing root with
  | nil => simp
  | cons name steps ih =>
    obtain ⟨hname, hsteps⟩ := List.forall_mem_cons.mp h
    rw [List.foldl_cons, ih hsteps, hname.components_join, List.append_assoc, List.map_cons,
      List.singleton_append]

/-- Paths below one folder are in the order of the names on the way. -/
theorem components_foldl_join_lt {a b : List String} (ha : ∀ name ∈ a, IsFileName name)
    (hb : ∀ name ∈ b, IsFileName name) (root : String) (h : a < b) :
    components (a.foldl join root) < components (b.foldl join root) := by
  rw [components_foldl_join ha, components_foldl_join hb]
  exact List.append_left_lt (List.map_lt (fun _ _ => Component.name_lt_name_iff.mpr) h)

theorem IsFileName.name?_join (h : IsFileName name) (folder : String) :
    name? (join folder name) = some name := by
  rw [name?, ← stepsOf, h.stepsOf_join, List.getLast?_concat, Option.filter_some,
    if_pos (bne_iff_ne.mpr h.notUp)]

/-- The name has something before its last dot, and the extension after it. -/
def HasExtension (name extension : String) : Prop :=
  ∃ stem, stem ≠ "" ∧ name = stem ++ "." ++ extension ∧ '.' ∉ extension.toList

theorem HasExtension.dot_not_mem (h : HasExtension name extension) : '.' ∉ extension.toList := by
  obtain ⟨-, -, -, hdot⟩ := h
  exact hdot

theorem ne_dot_of_mem_reverse {cs : List Char} (h : '.' ∉ cs) :
    ∀ c ∈ cs.reverse, (c != '.') = true := by
  intro c hc
  rw [bne_iff_ne]
  rintro rfl
  exact h (List.mem_reverse.mp hc)

theorem nameExtension?_of_dot_not_mem (h : '.' ∉ name.toList) : nameExtension? name = none := by
  have hlength : ¬ name.toList.length + 1 < name.length := by
    rw [String.length_toList]
    omega
  rw [nameExtension?, List.takeWhile_eq_self_iff.mpr (ne_dot_of_mem_reverse h),
    List.reverse_reverse, if_neg hlength]

/-- What follows the last dot, unless the dot is the first character. -/
theorem nameExtension?_append (stem : String) (h : '.' ∉ extension.toList) :
    nameExtension? (stem ++ "." ++ extension) = if stem = "" then none else some extension := by
  have hlast : ((stem ++ "." ++ extension).toList.reverse.takeWhile (· != '.')).reverse =
      extension.toList := by
    simp [List.takeWhile_append_of_pos (ne_dot_of_mem_reverse h)]
  have hlength : extension.toList.length + 1 < (stem ++ "." ++ extension).length ↔ stem ≠ "" := by
    have hpos : 0 < stem.length ↔ stem ≠ "" := by
      rw [← String.length_toList, List.length_pos_iff, ne_eq, String.toList_eq_nil_iff]
    have hdot : ".".length = 1 := rfl
    rw [← hpos]
    simp only [String.length_append, String.length_toList]
    omega
  rw [nameExtension?, hlast, String.ofList_toList]
  by_cases hstem : stem = ""
  · rw [if_pos hstem, if_neg fun hlt => hlength.mp hlt hstem]
  · rw [if_neg hstem, if_pos (hlength.mpr hstem)]

theorem nameExtension?_eq_some_iff :
    nameExtension? name = some extension ↔ HasExtension name extension := by
  constructor
  · intro h
    by_cases hdot : '.' ∈ name.toList
    · obtain ⟨after, before, hname, hafter⟩ :=
        List.eq_append_cons_of_mem (List.mem_reverse.mpr hdot)
      obtain rfl : name = String.ofList before.reverse ++ "." ++ String.ofList after.reverse := by
        rw [← String.toList_inj, ← List.reverse_reverse name.toList, hname]
        simp
      rw [nameExtension?_append _ (by simpa using hafter)] at h
      split_ifs at h with hstem
      obtain rfl := Option.some.inj h
      exact ⟨_, hstem, rfl, by simpa using hafter⟩
    · rw [nameExtension?_of_dot_not_mem hdot] at h
      cases h
  · rintro ⟨stem, hstem, rfl, hdot⟩
    rw [nameExtension?_append stem hdot, if_neg hstem]

end SnippetLint.Path
