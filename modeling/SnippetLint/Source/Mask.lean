import SnippetLint.Text.Position

/-! Comments and quoted literals of a source text, told apart from left to right. What opens one
and never closes is plain text, and reading goes on at the next character. Masking turns comments
and the insides of literals into spaces, character for character, so a position in the masked text
is a position in the source. -/
namespace SnippetLint.Source
open Text

inductive Lexeme where
  | plain (c : Char)
  /-- `//` up to the end of the line. -/
  | lineComment (text : List Char)
  | blockComment (text : List Char)
  /-- A quoted literal with both its quotes. -/
  | literal (text : List Char)
deriving DecidableEq, Repr

namespace Lexeme

/-- Up to and with the first `*/`, and what follows it. -/
def blockBody? : List Char → Option (List Char × List Char)
  | [] => none
  | c :: cs =>
    match c, cs with
    | '*', '/' :: rest => some (['*', '/'], rest)
    | c, cs => (blockBody? cs).map fun r => (c :: r.1, r.2)

/-- Up to and with the first `quote` that no backslash escapes, and what follows it. Only a
backtick's literal may go over a line feed. -/
def quotedBody? (quote : Char) : List Char → Option (List Char × List Char)
  | [] => none
  | c :: cs =>
    if c = quote then some ([c], cs)
    else if c = '\n' && quote != '`' then none
    else if c = '\\' then
      match cs with
      | [] => none
      | d :: ds =>
        if d = '\n' && quote != '`' then none
        else (quotedBody? quote ds).map fun r => (c :: d :: r.1, r.2)
    else (quotedBody? quote cs).map fun r => (c :: r.1, r.2)

def isQuote (c : Char) : Bool := c == '"' || c == '\'' || c == '`'

/-- The lexeme that starts with `c`, and the text after it. -/
def next (c : Char) (cs : List Char) : Lexeme × List Char :=
  if c = '/' then
    match cs with
    | '/' :: r =>
      (.lineComment ('/' :: '/' :: r.takeWhile (· != '\n')), r.dropWhile (· != '\n'))
    | '*' :: r =>
      match blockBody? r with
      | some (body, rest) => (.blockComment ('/' :: '*' :: body), rest)
      | none => (.plain c, cs)
    | _ => (.plain c, cs)
  else if isQuote c then
    match quotedBody? c cs with
    | some (body, rest) => (.literal (c :: body), rest)
    | none => (.plain c, cs)
  else (.plain c, cs)

theorem length_blockBody? (cs : List Char) :
    ∀ r ∈ blockBody? cs, r.2.length ≤ cs.length := by
  fun_induction blockBody? cs with
  | case1 => simp
  | case2 => simp; omega
  | case3 _ _ _ ih =>
    intro r hr
    obtain ⟨s, hs, rfl⟩ := Option.map_eq_some_iff.1 hr
    exact Nat.le_succ_of_le (ih s hs)

theorem length_quotedBody? (q : Char) (cs : List Char) :
    ∀ r ∈ quotedBody? q cs, r.2.length ≤ cs.length := by
  fun_induction quotedBody? q cs with
  | case1 | case2 | case3 | case4 | case5 => simp
  | case6 _ _ _ _ _ ih =>
    intro r hr
    obtain ⟨s, hs, rfl⟩ := Option.map_eq_some_iff.1 hr
    exact Nat.le_succ_of_le (Nat.le_succ_of_le (ih s hs))
  | case7 _ _ _ _ _ ih =>
    intro r hr
    obtain ⟨s, hs, rfl⟩ := Option.map_eq_some_iff.1 hr
    exact Nat.le_succ_of_le (ih s hs)

theorem length_next (c : Char) (cs : List Char) : (next c cs).2.length ≤ cs.length := by
  unfold next
  split
  · split
    · exact Nat.le_succ_of_le (List.dropWhile_suffix _).length_le
    · split
      · rename_i h; exact Nat.le_succ_of_le (length_blockBody? _ _ h)
      · exact Nat.le_refl _
    · exact Nat.le_refl _
  · split
    · split
      · rename_i h; exact length_quotedBody? _ _ _ h
      · exact Nat.le_refl _
    · exact Nat.le_refl _

/-- The characters that the lexeme stands for. -/
def text : Lexeme → List Char
  | plain c => [c]
  | lineComment t | blockComment t | literal t => t

end Lexeme

/-- The lexemes of a text, left to right. -/
def lexemes : List Char → List Lexeme
  | [] => []
  | c :: cs => (Lexeme.next c cs).1 :: lexemes (Lexeme.next c cs).2
termination_by cs => cs.length
decreasing_by exact Nat.lt_succ_of_le (Lexeme.length_next c cs)

/-- A line feed stays. -/
def blankOut (c : Char) : Char := if c = '\n' then '\n' else ' '

/-- The first and the last character stay. -/
def blankInside : List Char → List Char
  | [] => []
  | c :: cs => c :: ((cs.dropLast.map blankOut) ++ cs.getLast?.toList)

def Lexeme.masked : Lexeme → List Char
  | .plain c => [c]
  | .lineComment t | .blockComment t => t.map blankOut
  | .literal t => blankInside t

def mask (code : List Char) : List Char := (lexemes code).flatMap Lexeme.masked

def lineCommentsFrom (offset : Nat) : List Lexeme → List Nat
  | [] => []
  | .lineComment t :: ls => offset :: lineCommentsFrom (offset + byteLength t) ls
  | l :: ls => lineCommentsFrom (offset + byteLength l.text) ls

/-- Byte offsets of the `//` comments. -/
def lineComments (code : List Char) : List Nat := lineCommentsFrom 0 (lexemes code)

end SnippetLint.Source
