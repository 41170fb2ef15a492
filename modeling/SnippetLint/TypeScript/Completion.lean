import SnippetLint.ParseTree.Basic

/-! Whether control can reach the end of a statement. Only literal loop conditions are looked at,
and a labelled jump is taken to leave whatever it stands in. -/
namespace SnippetLint.TypeScript
open ParseTree

/-- Kinds of nodes that open the scope of a function. -/
def functionKinds : List String := [
  "function_declaration", "generator_function_declaration", "function_expression",
  "generator_function", "arrow_function", "method_definition"]

def isFunction (t : ParseTree) : Bool := functionKinds.contains t.kind

/-- What a jump may leave. -/
inductive Target where
  | loop
  | switch
deriving DecidableEq, Repr

def loopKinds : List String :=
  ["while_statement", "do_statement", "for_statement", "for_in_statement"]

/-- A jump right here leaves the target; `inLoop` and `inSwitch` tell what stands between. -/
def leaves (target : Target) (inLoop inSwitch : Bool) (t : ParseTree) : Bool :=
  let labelled := (t.child? "label").isSome
  if t.kind == "break_statement" then labelled || !(inLoop || inSwitch)
  else t.kind == "continue_statement" && target == .switch && (labelled || !inLoop)

/-- A node that waits to be looked at. The flags tell what stands between it and the target. -/
structure Pending where
  tree : ParseTree
  inLoop : Bool
  inSwitch : Bool

namespace Pending

/-- The named children, which wait next. -/
def below (p : Pending) : List Pending :=
  p.tree.namedChildren.map fun c =>
    ⟨c, p.inLoop || loopKinds.contains p.tree.kind,
      p.inSwitch || p.tree.kind == "switch_statement"⟩

end Pending

/-- The nodes that wait, the next one first. The last child is looked at before its siblings, and
nothing below a function or in a class is. -/
def escapesOfPending (target : Target) : List Pending → Bool
  | [] => false
  | p :: rest =>
    if leaves target p.inLoop p.inSwitch p.tree then true
    else if isFunction p.tree || p.tree.kind == "class_body" then escapesOfPending target rest
    else escapesOfPending target (p.below.reverse ++ rest)
termination_by pending => sizeOfAll (pending.map Pending.tree)
decreasing_by
  · rw [List.map_cons, sizeOfAll, size_eq p.tree]
    omega
  · have := sizeOfAll_filter_le named p.tree.children
    simp only [List.map_cons, List.map_append, List.map_reverse, sizeOfAll, sizeOfAll_append,
      sizeOfAll_reverse, size_eq p.tree, Pending.below, List.map_map, namedChildren,
      Function.comp_def, List.map_id']
    omega

/-- A `break`, or out of a switch also a `continue`, can leave the statement. -/
def escapes (target : Target) (t : ParseTree) : Bool :=
  escapesOfPending target (t.namedChildren.map fun c => ⟨c, false, false⟩).reverse

mutual

/-- `true` or nothing, in any number of parentheses. -/
def alwaysTrue : ParseTree → Bool
  | t@(node _ cs) =>
    t.kind == "true" || t.kind == "empty_statement" ||
      (t.kind == "parenthesized_expression" && firstAlwaysTrue cs)

def firstAlwaysTrue : List ParseTree → Bool
  | [] => false
  | t :: ts => if t.named then alwaysTrue t else firstAlwaysTrue ts

end

/-- The condition never stops the loop. -/
def isEndless (loop : ParseTree) : Bool :=
  match loop.child? "condition" with
  | some c => alwaysTrue c
  | none => loop.kind == "for_statement"

/-- Levels of statements that are looked at. -/
def maxStatementLevels : Nat := 257

/-- A statement below the last level is taken to return: better to say nothing than something
wrong. -/
def returnsWithin : Nat → ParseTree → Bool
  | 0, _ => true
  | levels + 1, t =>
    let returns := returnsWithin levels
    match t.kind with
    | "return_statement" | "throw_statement" => true
    | "statement_block" => t.namedChildren.any returns
    | "if_statement" => (t.child? "consequence").any returns && (t.child? "alternative").any returns
    | "else_clause" => t.firstNamed?.any returns
    | "labeled_statement" => (t.child? "body").any returns
    | "try_statement" =>
      ((t.child? "finalizer").bind (child? "body")).any returns ||
        ((t.child? "body").any returns &&
          (t.child? "handler").all fun handler => (handler.child? "body").any returns)
    | "switch_statement" =>
      match t.child? "body" with
      | some body =>
        body.namedChildren.any (·.kind == "switch_default") && !escapes .switch t &&
          body.namedChildren.getLast?.any fun last => (last.childrenIn "body").any returns
      | none => false
    | "while_statement" | "do_statement" | "for_statement" => isEndless t && !escapes .loop t
    | _ => false

/-- Every path through the statement ends in `return` or `throw` or goes on for ever. -/
def alwaysReturns (t : ParseTree) : Bool := returnsWithin maxStatementLevels t

end SnippetLint.TypeScript
