import SnippetLint.Json.Conversion
import SnippetLint.Proofs.Json.Arrangement

/-! What is written as JSON is read back as it was: positions, syntax trees and diagnostics whose
numbers fit a word, from the value that is written or from one with the members of its objects in
another order. -/
namespace SnippetLint
open JsonValue

/-- Both numbers fit an unsigned word of 64 bits. -/
def Position.FitsWord (p : Position) : Prop := p.line < UInt64.size ∧ p.column < UInt64.size

instance (p : Position) : Decidable p.FitsWord := inferInstanceAs (Decidable (_ ∧ _))

theorem Position.reads_toJson {p : Position} (h : p.FitsWord) : Reads ofJson? p.toJson p := by
  intro w hw
  have hnames : ["line", "column"].Nodup := by decide
  obtain ⟨ms, rfl, hms⟩ := hw.exists_object hnames
  obtain ⟨v, hv, hline⟩ := hms.exists_member "line" rfl (reads_nat h.1)
  obtain ⟨u, hu, hcolumn⟩ := hms.exists_member "column" rfl (reads_nat h.2)
  simp [ofJson?, hv, hu, hline, hcolumn]

namespace SyntaxNode

mutual

/-- All positions in the tree fit. -/
def FitsWord : SyntaxNode → Prop
  | node _ _ start stop cs =>
    (∀ p ∈ start, p.FitsWord) ∧ (∀ p ∈ stop, p.FitsWord) ∧ FitsWordAll cs

def FitsWordAll : List SyntaxNode → Prop
  | [] => True
  | n :: ns => n.FitsWord ∧ FitsWordAll ns

end

/-- The members of a node. -/
def members (kind : String) (message : Option String) (start stop : Option Position)
    (cs : List SyntaxNode) : List (String × JsonValue) :=
  ("type", .string kind) :: (member "message" .string message ++
    member "start" Position.toJson start ++ member "end" Position.toJson stop ++
    member "children" (fun cs => .array (toJsonAll cs)) (if cs.isEmpty then none else some cs))

theorem toJson_node (kind : String) (message : Option String) (start stop : Option Position)
    (cs : List SyntaxNode) :
    (node kind message start stop cs).toJson = .object (members kind message start stop cs) := by
  cases cs <;> simp [toJson, members, member, toJsonAll]

theorem names_member_sublist {α : Type} (name : String) (write : α → JsonValue) (a : Option α) :
    ((member name write a).map Prod.fst).Sublist [name] := by
  cases a with
  | none => exact List.nil_sublist [name]
  | some a => exact .refl _

theorem nodup_names_members (kind : String) (message : Option String)
    (start stop : Option Position) (cs : List SyntaxNode) :
    ((members kind message start stop cs).map Prod.fst).Nodup := by
  have hnames : ["type", "message", "start", "end", "children"].Nodup := by decide
  refine hnames.sublist ?_
  simp only [members, List.map_cons, List.map_append]
  exact ((((names_member_sublist _ _ message).append (names_member_sublist _ _ start)).append
    (names_member_sublist _ _ stop)).append (names_member_sublist _ _ _)).cons_cons _

theorem find?_member {α : Type} (name other : String) (write : α → JsonValue) (a : Option α) :
    find? name (member other write a) = if name = other then a.map write else none := by
  cases a with
  | none => simp [member, find?]
  | some a => rw [member, Option.toList_some, List.map_singleton, find?_cons]; rfl

/-- The nodes of an array. -/
def ofArray? : JsonValue → Option (List SyntaxNode)
  | .array vs => ofJsonAll? vs
  | _ => none

theorem childrenMember?_eq (ms : List (String × JsonValue)) :
    childrenMember? ms = (find? "children" ms).elim (some []) ofArray? := by
  induction ms with
  | nil => rfl
  | cons m ms ih =>
    obtain ⟨name, v⟩ := m
    rw [find?_cons]
    unfold childrenMember?
    by_cases h : name = "children"
    · subst h
      cases v <;> rfl
    · rw [if_neg (Ne.symm h), if_neg (by simp [h]), ih]

/-- `null` is no value that `read` takes, so that what it takes is there. -/
theorem optional?_some {α : Type} {read : JsonValue → Option α} {v : JsonValue} {a : α}
    (hnull : read .null = none) (h : read v = some a) :
    optional? read (some v) = some (some a) := by
  cases v <;> simp_all [optional?]

theorem optional?_of_sameMembers {α : Type} {read : JsonValue → Option α} {write : α → JsonValue}
    {ms ns : List (String × JsonValue)} {name : String} {a : Option α} (h : SameMembers ms ns)
    (hfind : find? name ms = a.map write) (hnull : read .null = none)
    (hread : ∀ x ∈ a, Reads read (write x) x) : optional? read (find? name ns) = some a := by
  cases a with
  | none =>
    rw [h.find?_eq_none _ hfind]
    rfl
  | some a =>
    obtain ⟨w, hw, hr⟩ := h.exists_member _ hfind (hread a rfl)
    rw [hw]
    exact optional?_some hnull hr

theorem find?_members (name kind : String) (message : Option String)
    (start stop : Option Position) (cs : List SyntaxNode) :
    find? name (members kind message start stop cs) =
      if name = "type" then some (.string kind)
      else if name = "message" then message.map .string
      else if name = "start" then start.map Position.toJson
      else if name = "end" then stop.map Position.toJson
      else if name = "children" then if cs.isEmpty then none else some (.array (toJsonAll cs))
      else none := by
  simp only [members, find?_cons, find?_append, find?_member]
  split_ifs <;> simp_all

theorem childrenMember?_of_sameMembers {ms ns : List (String × JsonValue)} {cs : List SyntaxNode}
    (h : SameMembers ms ns)
    (hfind : find? "children" ms = if cs.isEmpty then none else some (.array (toJsonAll cs)))
    (hread : Reads ofArray? (.array (toJsonAll cs)) cs) : childrenMember? ns = some cs := by
  rw [childrenMember?_eq]
  cases cs with
  | nil =>
    rw [h.find?_eq_none _ hfind]
    rfl
  | cons c cs =>
    obtain ⟨w, hw, hr⟩ := h.exists_member _ hfind hread
    rw [hw]
    exact hr

theorem reads_node {kind : String} {message : Option String} {start stop : Option Position}
    {cs : List SyntaxNode} (hstart : ∀ p ∈ start, p.FitsWord) (hstop : ∀ p ∈ stop, p.FitsWord)
    (hcs : Reads ofArray? (.array (toJsonAll cs)) cs) :
    Reads ofJson? (node kind message start stop cs).toJson (node kind message start stop cs) := by
  intro w hw
  rw [toJson_node] at hw
  obtain ⟨ms, rfl, hms⟩ := hw.exists_object (nodup_names_members kind message start stop cs)
  obtain ⟨v, hv, hk⟩ := hms.exists_member "type" rfl (reads_string kind)
  have hm := optional?_of_sameMembers hms (find?_members "message" ..) rfl
    fun s _ => reads_string s
  have hs := optional?_of_sameMembers hms (find?_members "start" ..) rfl
    fun p hp => Position.reads_toJson (hstart p hp)
  have he := optional?_of_sameMembers hms (find?_members "end" ..) rfl
    fun p hp => Position.reads_toJson (hstop p hp)
  have hc := childrenMember?_of_sameMembers hms (find?_members "children" ..) hcs
  simp [ofJson?, hv, hk, hm, hs, he, hc]

mutual

theorem reads_toJson : ∀ n : SyntaxNode, n.FitsWord → Reads ofJson? n.toJson n
  | .node _ _ _ _ cs, h => reads_node h.1 h.2.1 fun w hw => by
    obtain ⟨ws, rfl, hws⟩ := hw.exists_array
    exact ofJsonAll?_toJsonAll cs h.2.2 ws hws

theorem ofJsonAll?_toJsonAll : ∀ ns : List SyntaxNode, FitsWordAll ns →
    ∀ ws, List.Forall₂ Rearranged (toJsonAll ns) ws → ofJsonAll? ws = some ns
  | [], _, _, .nil => rfl
  | n :: ns, h, _, .cons hw hws => by
    rw [ofJsonAll?, reads_toJson n h.1 _ hw, ofJsonAll?_toJsonAll ns h.2 _ hws]
    rfl

end

mutual

theorem FitsWord.of_mem_levelsFrom : ∀ (n : SyntaxNode) (level : ℕ), n.FitsWord →
    ∀ m ∈ n.levelsFrom level, m.2.FitsWord
  | .node _ _ _ _ cs, level, h, _, hm => by
    rw [levelsFrom] at hm
    rcases List.mem_cons.mp hm with rfl | hm
    · exact h
    · exact FitsWordAll.of_mem_levelsOfAll cs (level + 1) h.2.2 _ hm

theorem FitsWordAll.of_mem_levelsOfAll : ∀ (ns : List SyntaxNode) (level : ℕ), FitsWordAll ns →
    ∀ m ∈ levelsOfAll level ns, m.2.FitsWord
  | [], _, _, _, hm => absurd hm List.not_mem_nil
  | n :: ns, level, h, _, hm => by
    rw [levelsOfAll] at hm
    rcases List.mem_append.mp hm with hm | hm
    · exact FitsWord.of_mem_levelsFrom n level h.1 _ hm
    · exact FitsWordAll.of_mem_levelsOfAll ns level h.2 _ hm

end

end SyntaxNode

namespace SyntaxTree

def FitsWord (t : SyntaxTree) : Prop := ∀ n ∈ t.root?, n.FitsWord

theorem reads_ofNode {n : SyntaxNode} (h : n.FitsWord) : Reads ofJson? n.toJson (.ofNode n) := by
  intro w hw
  unfold ofJson?
  rw [n.reads_toJson h w hw]

/-- An object without members is no node, for a node has a type. -/
theorem reads_empty : Reads ofJson? (.object []) .empty := by
  intro w hw
  obtain ⟨ms, rfl, hms⟩ := hw.exists_object .nil
  have hnode : SyntaxNode.ofJson? (.object ms) = none := by
    rw [SyntaxNode.ofJson?, hms.find?_eq_none "type" rfl]
    rfl
  unfold ofJson?
  rw [hnode]

theorem reads_toJson {t : SyntaxTree} (h : t.FitsWord) : Reads ofJson? t.toJson t := by
  cases t with
  | ofNode n => exact reads_ofNode (h n rfl)
  | empty => exact reads_empty

end SyntaxTree

theorem Severity.reads_name (s : Severity) : Reads ofJson? (.string s.name) s := by
  intro w hw
  rw [hw.eq_string]
  cases s <;> rfl

theorem Diagnostic.reads_toJson {d : Diagnostic} (h : d.position.FitsWord) :
    Reads ofJson? d.toJson d := by
  intro w hw
  have hnames : ["line", "column", "message", "severity"].Nodup := by decide
  obtain ⟨ms, rfl, hms⟩ := hw.exists_object hnames
  obtain ⟨l, hl, hline⟩ := hms.exists_member "line" rfl (reads_nat h.1)
  obtain ⟨c, hc, hcolumn⟩ := hms.exists_member "column" rfl (reads_nat h.2)
  obtain ⟨m, hm, hmessage⟩ := hms.exists_member "message" rfl (reads_string d.message)
  obtain ⟨s, hs, hseverity⟩ := hms.exists_member "severity" rfl d.severity.reads_name
  simp [ofJson?, ofParts?, hl, hc, hm, hs, hline, hcolumn, hmessage, hseverity]

/-- What is read as either of two things is read as one only. -/
theorem JsonValue.Reads.eq {α : Type} {read : JsonValue → Option α} {v w u : JsonValue} {a b : α}
    (ha : Reads read v a) (hb : Reads read w b) (hv : Rearranged v u) (hw : Rearranged w u) :
    a = b :=
  Option.some.inj ((ha u hv).symm.trans (hb u hw))

/-- Trees and diagnostics whose numbers fit a word are read back from what is written of them, and
so is each node of a tree, which is never taken for an empty tree. No two of them are written as the
same value. The order of the members of objects does not count in any of this. -/
theorem ofJson?_toJson_of_fitsWord {t u : SyntaxTree} {d e : Diagnostic} (ht : t.FitsWord)
    (hu : u.FitsWord) (hd : d.position.FitsWord) (he : e.position.FitsWord) :
    (SyntaxTree.ofJson? t.toJson = some t ∧
      ∀ v, Rearranged t.toJson v → SyntaxTree.ofJson? v = some t) ∧
    (∀ n ∈ t.root?, ∀ m ∈ n.levels, ∀ v, Rearranged m.2.toJson v →
      SyntaxTree.ofJson? v = some (.ofNode m.2)) ∧
    (∀ v, Rearranged t.toJson v → Rearranged u.toJson v → t = u) ∧
    (Diagnostic.ofJson? d.toJson = some d ∧
      ∀ v, Rearranged d.toJson v → Diagnostic.ofJson? v = some d) ∧
    (∀ v, Rearranged d.toJson v → Rearranged e.toJson v → d = e) := by
  have hrt := SyntaxTree.reads_toJson ht
  have hrd := Diagnostic.reads_toJson hd
  refine ⟨⟨hrt _ (.refl _), hrt⟩, ?_, fun v => hrt.eq (SyntaxTree.reads_toJson hu),
    ⟨hrd _ (.refl _), hrd⟩, fun v => hrd.eq (Diagnostic.reads_toJson he)⟩
  intro n hn m hm
  exact SyntaxTree.reads_ofNode (SyntaxNode.FitsWord.of_mem_levelsFrom n 0 (ht n hn) m hm)

namespace Sample

/-- The greatest column that there is, a message, and nodes with less and less in them. -/
def tree : SyntaxTree :=
  .ofNode (.node "program" none (some ⟨1, 1⟩) (some ⟨1, UInt64.size - 1⟩) [
    .node "ERROR" (some "Unexpected token") (some ⟨1, 1⟩) none [.node "x" none none none []],
    .node ";" none none none []])

def unclosed : Diagnostic := .error ⟨1, 7⟩ "Unclosed parenthesis"

def unused : Diagnostic := .warning ⟨2, 1⟩ "unused"

theorem fitsWord_tree : tree.FitsWord := by
  simp [SyntaxTree.FitsWord, tree, SyntaxTree.root?, SyntaxNode.FitsWord, SyntaxNode.FitsWordAll,
    Position.FitsWord, UInt64.size]

theorem ofJson?_tree :
    tree.FitsWord ∧ SyntaxTree.empty.FitsWord ∧ unclosed.position.FitsWord ∧
      unused.position.FitsWord ∧ SyntaxTree.ofJson? tree.toJson = some tree ∧
      Diagnostic.ofJson? unclosed.toJson = some unclosed :=
  have hempty : SyntaxTree.empty.FitsWord := fun _ h => absurd h (Option.not_mem_none _)
  have hunclosed : unclosed.position.FitsWord := by decide
  have hunused : unused.position.FitsWord := by decide
  have h := ofJson?_toJson_of_fitsWord fitsWord_tree hempty hunclosed hunused
  ⟨fitsWord_tree, hempty, hunclosed, hunused, h.1.1, h.2.2.2.1.1⟩

end Sample
end SnippetLint
