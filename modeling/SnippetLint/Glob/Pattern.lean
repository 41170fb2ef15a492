/-! Patterns of paths. `?` is any byte, `*` any bytes, `**` as a whole part of a path any parts,
`[...]` one of some bytes, `{...}` one of some patterns; a backslash takes away the meaning of
the character after it. -/
namespace SnippetLint.Glob

inductive Token where
  | literal (c : Char)
  | any
  | anyBytes
  /-- `**` with the separator after it, at the start. -/
  | leadingParts
  /-- `**` with the separator before it, at the end. -/
  | trailingParts
  /-- `**` with a separator on both sides. -/
  | innerParts
  | oneOf (negated : Bool) (ranges : List (Char × Char))
  | branches (patterns : List (List Token))
deriving Repr

inductive Error where
  | unclosedClass
  | invalidRange (first last : Char)
  | unopenedBranches
  | unclosedBranches
  | danglingEscape
deriving DecidableEq, Repr

namespace Error

def reason : Error → String
  | unclosedClass => "unclosed character class; missing ']'"
  | invalidRange first last =>
    "invalid range; '" ++ first.toString ++ "' > '" ++ last.toString ++ "'"
  | unopenedBranches =>
    "unopened alternate group; missing '\x7b' (maybe escape '\x7d' with '[\x7d]'?)"
  | unclosedBranches =>
    "unclosed alternate group; missing '\x7d' (maybe escape '\x7b' with '[\x7b]'?)"
  | danglingEscape => "dangling '\\'"

def message (pattern : String) (e : Error) : String :=
  "error parsing glob '" ++ pattern ++ "': " ++ e.reason

end Error

/-- The ranges of a class from its characters. A hyphen stretches the range before it up to the
character after it; `done` are the ranges so far, the last first. -/
def rangesFrom (stretch : Bool) (done : List (Char × Char)) :
    List Char → Except Error (List (Char × Char))
  | [] => .ok (if stretch then ('-', '-') :: done else done).reverse
  | c :: cs =>
    match done with
    | [] => rangesFrom false [(c, c)] cs
    | (first, last) :: earlier =>
      if stretch then
        if c < first then .error (.invalidRange first c)
        else rangesFrom false ((first, c) :: earlier) cs
      else if c = '-' then rangesFrom true ((first, last) :: earlier) cs
      else rangesFrom false ((c, c) :: (first, last) :: earlier) cs

def isNegation (c : Char) : Bool := c == '!' || c == '^'

/-- The text of a class after its negation; the first character never closes it. -/
def classText (cs : List Char) : List Char × List Char :=
  match cs with
  | [] => ([], [])
  | c :: cs => (c :: cs.takeWhile (· != ']'), cs.dropWhile (· != ']'))

/-- The class after `[`, and what follows its `]`. -/
def parseClass (cs : List Char) : Except Error Token × List Char :=
  let negated := cs.head?.any isNegation
  let (text, rest) := classText (if negated then cs.drop 1 else cs)
  (do
    let ranges ← rangesFrom false [] text
    if rest.isEmpty then .error .unclosedClass else .ok (.oneOf negated ranges), rest.drop 1)

theorem length_classText (cs : List Char) : (classText cs).2.length ≤ cs.length := by
  unfold classText
  split
  · exact Nat.le_refl _
  · exact Nat.le_succ_of_le (List.dropWhile_suffix _).length_le

theorem length_parseClass (cs : List Char) : (parseClass cs).2.length ≤ cs.length := by
  simp only [parseClass, List.length_drop]
  split
  · have := length_classText (cs.drop 1); simp only [List.length_drop] at this; omega
  · have := length_classText cs; omega

/-- What is read of a pattern so far, the last first. Each open brace has its finished branches
and the tokens before it. -/
structure Partial where
  tokens : List Token
  groups : List (List (List Token) × List Token)

namespace Partial

def push (t : Token) (p : Partial) : Partial := { p with tokens := t :: p.tokens }

def openGroup (p : Partial) : Partial := ⟨[], ([], p.tokens) :: p.groups⟩

/-- Outside of braces a comma is a character like others. -/
def comma (p : Partial) : Partial :=
  match p.groups with
  | [] => p.push (.literal ',')
  | (done, before) :: outer => ⟨[], (p.tokens.reverse :: done, before) :: outer⟩

def closeGroup (p : Partial) : Except Error Partial :=
  match p.groups with
  | [] => .error .unopenedBranches
  | (done, before) :: outer =>
    .ok ⟨.branches (p.tokens.reverse :: done).reverse :: before, outer⟩

/-- The last token gives way to `t`, unless it stands for parts at the start or the end. -/
def pushParts (t : Token) (p : Partial) : Partial :=
  match p.tokens with
  | .leadingParts :: _ | .trailingParts :: _ => p
  | _ :: earlier => { p with tokens := t :: earlier }
  | [] => p

def finish (p : Partial) : Except Error (List Token) :=
  if p.groups.isEmpty then .ok p.tokens.reverse else .error .unclosedBranches

/-- `**` after `before`, with `rest` after it; and how many characters of `rest` it takes. It
stands for parts only where it is a whole part. -/
def starStar (before : Option Char) (rest : List Char) (p : Partial) : Partial × Nat :=
  let plain := (p.push .anyBytes).push .anyBytes
  if p.tokens.isEmpty then
    match rest with
    | [] => (p.push .leadingParts, 0)
    | '/' :: _ => (p.push .leadingParts, 1)
    | _ => (plain, 0)
  else if before != some '/' &&
      !(!p.groups.isEmpty && (before == some ',' || before == some '\x7b')) then (plain, 0)
  else
    match rest with
    | [] => (p.pushParts .trailingParts, 0)
    | '/' :: _ => (p.pushParts .innerParts, 1)
    | c :: _ =>
      if !p.groups.isEmpty && (c == ',' || c == '\x7d') then (p.pushParts .trailingParts, 0)
      else (plain, 0)

end Partial

def parseFrom (before : Option Char) (p : Partial) : List Char → Except Error Partial
  | [] => .ok p
  | c :: cs =>
    if c = '?' then parseFrom (some c) (p.push .any) cs
    else if c = '*' then
      match cs with
      | '*' :: rest =>
        let (q, taken) := p.starStar before rest
        parseFrom (if taken = 0 then some c else some '/') q (rest.drop taken)
      | rest => parseFrom (some c) (p.push .anyBytes) rest
    else if c = '[' then
      match (parseClass cs).1 with
      | .ok t => parseFrom (some ']') (p.push t) (parseClass cs).2
      | .error e => .error e
    else if c = '\x7b' then parseFrom (some c) p.openGroup cs
    else if c = '\x7d' then
      match p.closeGroup with
      | .ok q => parseFrom (some c) q cs
      | .error e => .error e
    else if c = ',' then parseFrom (some c) p.comma cs
    else if c = '\\' then
      match cs with
      | [] => .error .danglingEscape
      | d :: rest => parseFrom (some d) (p.push (.literal d)) rest
    else parseFrom (some c) (p.push (.literal c)) cs
termination_by cs => cs.length
decreasing_by
  all_goals simp only [List.length_cons, List.length_drop]
  all_goals first | omega | exact Nat.lt_succ_of_le (length_parseClass _)

def parse (pattern : String) : Except Error (List Token) :=
  (parseFrom none ⟨[], []⟩ pattern.toList).bind Partial.finish

end SnippetLint.Glob
