import SnippetLint.TypeScript.Completion
import Mathlib.Data.List.Basic

/-! How statements run, as far as control goes. Conditions come out either way, but for those of
loops that are `true` or not there, and in the body of a `try` every statement may throw. A node
that stands where the grammar has no statement does not run. -/
namespace SnippetLint.TypeScript
open ParseTree

/-- How a statement ends. -/
inductive Completion where
  | normal
  | returns
  | throws
  | breaks (label : Option (List Char))
  | continues (label : Option (List Char))
deriving DecidableEq, Repr

/-- After such an end of its body a loop with these labels goes on. -/
def Completion.goesOn (labels : List (List Char)) : Completion → Bool
  | normal | continues none => true
  | continues (some label) => labels.contains label
  | _ => false

/-- The label that a jump names or a statement bears. -/
def label? (source : List Char) (t : ParseTree) : Option (List Char) :=
  (t.child? "label").map (text source)

/-- The named child in the role `field`. -/
def role? (field : String) (t : ParseTree) : Option ParseTree := (t.child? field).filter named

/-- The body of a clause of a `try`. -/
def clauseBody? (field kind : String) (t : ParseTree) : Option ParseTree :=
  ((role? field t).filter (·.kind == kind)).bind (role? "body")

def handlerBody? (t : ParseTree) : Option ParseTree := clauseBody? "handler" "catch_clause" t

def finalizerBody? (t : ParseTree) : Option ParseTree :=
  clauseBody? "finalizer" "finally_clause" t

def clauseKinds : List String := ["switch_case", "switch_default"]

/-- Kinds of nodes between the clauses of a `switch`: comments and what the parser could not
read. -/
def passedOverKinds : List String := ["comment", "html_comment", "ERROR"]

/-- The clauses of a `switch`, and what is passed over between them. -/
def clauses? (t : ParseTree) : Option (List ParseTree) :=
  ((role? "body" t).filter fun body => body.kind == "switch_body" &&
    body.namedChildren.all ((clauseKinds ++ passedOverKinds).contains ·.kind)).map namedChildren

/-- The statements of clauses, one clause after another. -/
def clauseStatements (cs : List ParseTree) : List ParseTree := cs.flatMap (childrenIn "body")

def sequenceKinds : List String := ["statement_block", "else_clause"]

/-- Statements whose only part is their body. -/
def bodyKinds : List String := ["labeled_statement", "with_statement"] ++ loopKinds

/-- Statements that do more to control than pass it on. -/
def controlKinds : List String :=
  ["return_statement", "throw_statement", "break_statement", "continue_statement", "if_statement",
    "try_statement", "switch_statement"] ++ sequenceKinds ++ bodyKinds

/-- The condition is `true`, in parentheses or not, or there is none. -/
inductive LiterallyTrue : ParseTree → Prop
  | literal {t : ParseTree} (hk : t.kind = "true") : LiterallyTrue t
  | absent {t : ParseTree} (hk : t.kind = "empty_statement") : LiterallyTrue t
  | parenthesized {t s : ParseTree} (hk : t.kind = "parenthesized_expression")
      (hs : s ∈ t.namedChildren) (h : LiterallyTrue s) : LiterallyTrue t

/-- A loop that no condition ends. -/
def Endless (t : ParseTree) : Prop :=
  match t.child? "condition" with
  | some c => LiterallyTrue c
  | none => t.kind = "for_statement"

/-- What is left to run. -/
inductive Task where
  /-- A statement that bears the labels. -/
  | statement (labels : List (List Char)) (t : ParseTree)
  | sequence (ts : List ParseTree)
  /-- A `try` without its finalizer. -/
  | guarded (t : ParseTree)
  /-- A loop at its condition. -/
  | test (labels : List (List Char)) (t : ParseTree)
  /-- A loop at its body. -/
  | turn (labels : List (List Char)) (t : ParseTree)

section
variable (source : List Char)

/-- The task can come to this end. `inTry` holds in the body of a `try`. -/
inductive Runs : Bool → Task → Completion → Prop
  | throws {labels} {t : ParseTree} (hk : t.kind ≠ "comment") :
      Runs true (.statement labels t) .throws
  | plain {inTry labels} {t : ParseTree} (hk : t.kind ∉ controlKinds) :
      Runs inTry (.statement labels t) .normal
  | returnStatement {inTry labels} {t : ParseTree} (hk : t.kind = "return_statement") :
      Runs inTry (.statement labels t) .returns
  | throwStatement {inTry labels} {t : ParseTree} (hk : t.kind = "throw_statement") :
      Runs inTry (.statement labels t) .throws
  | breakStatement {inTry labels} {t : ParseTree} (hk : t.kind = "break_statement") :
      Runs inTry (.statement labels t) (.breaks (label? source t))
  | continueStatement {inTry labels} {t : ParseTree} (hk : t.kind = "continue_statement") :
      Runs inTry (.statement labels t) (.continues (label? source t))
  | block {inTry labels} {t : ParseTree} {c : Completion} (hk : t.kind ∈ sequenceKinds)
      (h : Runs inTry (.sequence t.namedChildren) c) : Runs inTry (.statement labels t) c
  | consequence {inTry labels} {t s : ParseTree} {c : Completion} (hk : t.kind = "if_statement")
      (hs : role? "consequence" t = some s) (h : Runs inTry (.statement [] s) c) :
      Runs inTry (.statement labels t) c
  | alternative {inTry labels} {t s : ParseTree} {c : Completion} (hk : t.kind = "if_statement")
      (hs : role? "alternative" t = some s) (h : Runs inTry (.statement [] s) c) :
      Runs inTry (.statement labels t) c
  | noAlternative {inTry labels} {t : ParseTree} (hk : t.kind = "if_statement")
      (hs : t.child? "alternative" = none) : Runs inTry (.statement labels t) .normal
  | withStatement {inTry labels} {t s : ParseTree} {c : Completion}
      (hk : t.kind = "with_statement") (hs : role? "body" t = some s)
      (h : Runs inTry (.statement [] s) c) : Runs inTry (.statement labels t) c
  | labelled {inTry labels} {t s : ParseTree} {label : List Char} {c : Completion}
      (hk : t.kind = "labeled_statement") (hl : label? source t = some label)
      (hs : role? "body" t = some s) (h : Runs inTry (.statement (label :: labels) s) c)
      (hc : c ≠ .breaks (some label)) : Runs inTry (.statement labels t) c
  | labelledBreak {inTry labels} {t s : ParseTree} {label : List Char}
      (hk : t.kind = "labeled_statement") (hl : label? source t = some label)
      (hs : role? "body" t = some s)
      (h : Runs inTry (.statement (label :: labels) s) (.breaks (some label))) :
      Runs inTry (.statement labels t) .normal
  | tryStatement {inTry labels} {t : ParseTree} {c : Completion} (hk : t.kind = "try_statement")
      (hf : t.child? "finalizer" = none) (h : Runs inTry (.guarded t) c) :
      Runs inTry (.statement labels t) c
  | finalizer {inTry labels} {t s : ParseTree} {c : Completion} (hk : t.kind = "try_statement")
      (h : Runs inTry (.guarded t) c) (hs : finalizerBody? t = some s)
      (hf : Runs inTry (.statement [] s) .normal) : Runs inTry (.statement labels t) c
  | abruptFinalizer {inTry labels} {t s : ParseTree} {c d : Completion}
      (hk : t.kind = "try_statement") (h : Runs inTry (.guarded t) c)
      (hs : finalizerBody? t = some s) (hf : Runs inTry (.statement [] s) d) (hd : d ≠ .normal) :
      Runs inTry (.statement labels t) d
  | unguarded {inTry : Bool} {t s : ParseTree} {c : Completion} (hs : role? "body" t = some s)
      (h : Runs true (.statement [] s) c) (hc : c = .throws → t.child? "handler" = none) :
      Runs inTry (.guarded t) c
  | handled {inTry : Bool} {t s r : ParseTree} {c : Completion} (hs : role? "body" t = some s)
      (h : Runs true (.statement [] s) .throws) (hr : handlerBody? t = some r)
      (hc : Runs inTry (.statement [] r) c) : Runs inTry (.guarded t) c
  | noClause {inTry labels} {t : ParseTree} {cs : List ParseTree}
      (hk : t.kind = "switch_statement") (hcs : clauses? t = some cs)
      (hd : ∀ c ∈ cs, c.kind ≠ "switch_default") : Runs inTry (.statement labels t) .normal
  | clause {inTry labels} {t e : ParseTree} {before after : List ParseTree} {c : Completion}
      (hk : t.kind = "switch_statement") (hcs : clauses? t = some (before ++ e :: after))
      (he : e.kind ∉ passedOverKinds) (h : Runs inTry (.sequence (clauseStatements (e :: after))) c)
      (hc : c ≠ .breaks none) : Runs inTry (.statement labels t) c
  | clauseBreak {inTry labels} {t e : ParseTree} {before after : List ParseTree}
      (hk : t.kind = "switch_statement") (hcs : clauses? t = some (before ++ e :: after))
      (he : e.kind ∉ passedOverKinds)
      (h : Runs inTry (.sequence (clauseStatements (e :: after))) (.breaks none)) :
      Runs inTry (.statement labels t) .normal
  | loop {inTry labels} {t : ParseTree} {c : Completion} (hk : t.kind ∈ loopKinds)
      (hd : t.kind ≠ "do_statement") (h : Runs inTry (.test labels t) c) :
      Runs inTry (.statement labels t) c
  | doLoop {inTry labels} {t : ParseTree} {c : Completion} (hk : t.kind = "do_statement")
      (h : Runs inTry (.turn labels t) c) : Runs inTry (.statement labels t) c
  | ends {inTry labels} {t : ParseTree} (he : ¬ Endless t) : Runs inTry (.test labels t) .normal
  | enters {inTry labels} {t : ParseTree} {c : Completion} (h : Runs inTry (.turn labels t) c) :
      Runs inTry (.test labels t) c
  | again {inTry labels} {t s : ParseTree} {c d : Completion} (hs : role? "body" t = some s)
      (h : Runs inTry (.statement [] s) c) (hc : c.goesOn labels = true)
      (hd : Runs inTry (.test labels t) d) : Runs inTry (.turn labels t) d
  | loopBreak {inTry labels} {t s : ParseTree} (hs : role? "body" t = some s)
      (h : Runs inTry (.statement [] s) (.breaks none)) : Runs inTry (.turn labels t) .normal
  | leaves {inTry labels} {t s : ParseTree} {c : Completion} (hs : role? "body" t = some s)
      (h : Runs inTry (.statement [] s) c) (hc : c.goesOn labels = false) (hb : c ≠ .breaks none) :
      Runs inTry (.turn labels t) c
  | nil {inTry : Bool} : Runs inTry (.sequence []) .normal
  | next {inTry : Bool} {t : ParseTree} {ts : List ParseTree} {c : Completion}
      (hn : t.named = true) (h : Runs inTry (.statement [] t) .normal)
      (hs : Runs inTry (.sequence ts) c) : Runs inTry (.sequence (t :: ts)) c
  | stop {inTry : Bool} {t : ParseTree} {ts : List ParseTree} {c : Completion}
      (hn : t.named = true) (h : Runs inTry (.statement [] t) c) (hc : c ≠ .normal) :
      Runs inTry (.sequence (t :: ts)) c

/-- No execution of the statement goes on behind it. -/
def NeverCompletes (t : ParseTree) : Prop :=
  ∀ inTry labels, ¬ Runs source inTry (.statement labels t) .normal

end

end SnippetLint.TypeScript
