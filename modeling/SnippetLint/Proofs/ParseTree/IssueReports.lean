import SnippetLint.ParseTree.Issue
import SnippetLint.Proofs.ParseTree.Places
import SnippetLint.Proofs.Text.Trimming

/-! What an issue says of its node: where it starts, whether it is right below the root, and what
is wrong there. The node may be anywhere in the tree of any text. -/
namespace SnippetLint

variable {source : List Char} {u : ParseTree}

/-- The first of the nodes below that have none below them stands where one goes down to the first
child as long as there is one. -/
theorem ParseTree.exists_at?_firstLeaf (t : ParseTree) :
    ∃ depth, t.at? (List.replicate depth 0) = some t.firstLeaf ∧ t.firstLeaf.children = [] := by
  fun_induction firstLeaf t with
  | case1 l => exact ⟨0, rfl, rfl⟩
  | case2 l c cs ih =>
    obtain ⟨depth, hleaf, hend⟩ := ih
    exact ⟨depth + 1, (at?_of_child (t := node l (c :: cs)) rfl _).trans hleaf, hend⟩

namespace Issue

/-- What a message shows of a text: the first characters of its first line, less the blanks at the
ends of that line. -/
def IsExcerpt (text : List Char) (token : String) : Prop :=
  ∃ line rest body, text = line ++ rest ∧ '\n' ∉ line ∧ (∀ c ∈ rest.head?, c = '\n') ∧
    Text.Trimmed line body ∧ token.toList = body.take maxExcerpt

theorem isExcerpt_excerpt (text : List Char) : IsExcerpt text (excerpt text) := by
  refine ⟨text.takeWhile (· != '\n'), text.dropWhile (· != '\n'), _,
    List.takeWhile_append_dropWhile.symm, ?_, ?_, Text.trimmed_trim _, String.toList_ofList⟩
  · intro hmem
    simpa using List.mem_takeWhile_imp hmem
  · intro c hc
    have hhead := List.head?_dropWhile_not (· != '\n') text
    rw [Option.mem_def.mp hc] at hhead
    simpa using hhead

/-- What is wrong at a node: it is missing; or nothing of the text is left for it; or its text has
no place, of which the first leaf is shown. -/
inductive SaidOf (source : List Char) (u : ParseTree) : IssueKind → Prop
  | missing (h : u.label.isMissing = true) : SaidOf source u (.missing u.kind)
  | unexpectedEnd (h : u.label.isMissing = false)
      (hend : Text.byteLength source ≤ u.start ∨ u.start = u.stop) :
      SaidOf source u .unexpectedEnd
  | unexpected {depth : ℕ} {leaf : ParseTree} {token : String} (h : u.label.isMissing = false)
      (hstart : u.start < Text.byteLength source) (hstop : u.start ≠ u.stop)
      (hleaf : u.at? (List.replicate depth 0) = some leaf) (hlast : leaf.children = [])
      (htoken : IsExcerpt (leaf.text source) token) : SaidOf source u (.unexpected token)

theorem saidOf_kindOf (source : List Char) (u : ParseTree) :
    SaidOf source u (kindOf source u) := by
  unfold kindOf
  split_ifs with hm he
  · exact .missing hm
  · refine .unexpectedEnd (by simpa using hm) ?_
    simpa using he
  · obtain ⟨hstart, hstop⟩ : ¬ Text.byteLength source ≤ u.start ∧ u.start ≠ u.stop := by
      simpa using he
    obtain ⟨depth, hleaf, hlast⟩ := u.exists_at?_firstLeaf
    exact .unexpected (by simpa using hm) (by omega) hstop hleaf hlast (isExcerpt_excerpt _)

/-- The issue is that of the node at the place. -/
structure Reports (source : List Char) (place : List ℕ) (u : ParseTree) (i : Issue) : Prop where
  start : i.start = u.start
  kind : SaidOf source u i.kind
  topLevel : i.topLevel = true ↔ place.length = 1

theorem reports_ofNode (source : List Char) (place : List ℕ) (u : ParseTree) :
    Reports source place u (ofNode source place.length u) :=
  ⟨rfl, saidOf_kindOf source u, by simp [ofNode]⟩

end Issue
end SnippetLint
