import SnippetLint.Diagnostic

/-! Brackets without a partner. Each kind is matched by itself over the whole text. -/
namespace SnippetLint

inductive Bracket where
  | parenthesis
  | curly
  | square
deriving DecidableEq, Repr

namespace Bracket

def all : List Bracket := [parenthesis, curly, square]

def opening : Bracket → Char
  | parenthesis => '('
  | curly => '\x7b'
  | square => '['

def closing : Bracket → Char
  | parenthesis => ')'
  | curly => '\x7d'
  | square => ']'

def name : Bracket → String
  | parenthesis => "parenthesis"
  | curly => "curly brace"
  | square => "square bracket"

/-- The order in which scripts are scanned. -/
def scriptOrder : List Bracket := [parenthesis, curly, square]

/-- The order in which C and C++ are scanned. -/
def blockOrder : List Bracket := [curly, parenthesis, square]

def unmatched (b : Bracket) (p : Position) : Diagnostic :=
  .error p ("Unmatched closing " ++ b.name)

def unclosed (b : Bracket) (p : Position) : Diagnostic :=
  .error p ("Unclosed " ++ b.name)

/-- `opens` are the brackets open at `p`, the innermost first. -/
def scanFrom (b : Bracket) (p : Position) (opens : List Position) : List Char → List Diagnostic
  | [] => opens.reverse.map b.unclosed
  | c :: cs =>
    if c = b.opening then scanFrom b (p.advance c) (p :: opens) cs
    else if c = b.closing then
      match opens with
      | _ :: outer => scanFrom b (p.advance c) outer cs
      | [] => b.unmatched p :: scanFrom b (p.advance c) [] cs
    else scanFrom b (p.advance c) opens cs

/-- Closing brackets with nothing to close, then opening brackets that nothing closes. -/
def scan (code : List Char) (b : Bracket) : List Diagnostic := scanFrom b .first [] code

def scanAll (code : List Char) (bs : List Bracket) : List Diagnostic := bs.flatMap (scan code)

end Bracket
end SnippetLint
