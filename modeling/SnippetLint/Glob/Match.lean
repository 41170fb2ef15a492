import SnippetLint.Glob.Pattern

/-! Which paths a pattern fits. Patterns are compared with the bytes of a path, so `?` and a class
are one byte of a longer character. -/
namespace SnippetLint.Glob

abbrev Bytes := List UInt8

def bytesOf (s : String) : Bytes := s.toList.flatMap String.utf8EncodeChar

/-- What is left of a text after any number of its first bytes. -/
def tails : Bytes → List Bytes
  | [] => [[]]
  | b :: bs => (b :: bs) :: tails bs

/-- The tails that come right after a separator. -/
def tailsAfterSeparator : Bytes → List Bytes
  | [] => []
  | b :: bs => if b = 0x2F then bs :: tailsAfterSeparator bs else tailsAfterSeparator bs

/-- The bytes of a class. Of a character with more than one byte each byte counts, and a range
goes from the last byte of its first character to the first byte of its last one. -/
def inRange (b : UInt8) (r : Char × Char) : Bool :=
  let first := String.utf8EncodeChar r.1
  let last := String.utf8EncodeChar r.2
  if r.1 = r.2 then first.contains b
  else first.contains b || last.contains b ||
    (first.getLast?.any (· ≤ b) && last.head?.any (b ≤ ·))

def afterByte (p : UInt8 → Bool) : Bytes → List Bytes
  | [] => []
  | b :: bs => if p b then [bs] else []

mutual

/-- A token that asks for nothing: branches of which none has a token that asks for something. -/
def isVoid : Token → Bool
  | .branches patterns => eachVoid patterns
  | _ => false

def allVoid : List Token → Bool
  | [] => true
  | t :: ts => isVoid t && allVoid ts

def eachVoid : List (List Token) → Bool
  | [] => true
  | p :: ps => allVoid p && eachVoid ps

end

mutual

/-- What may be left of a text after a token. -/
def after (text : Bytes) : Token → List Bytes
  | .literal c => ((String.utf8EncodeChar c).isPrefixOf? text).toList
  | .any => afterByte (fun _ => true) text
  | .anyBytes => tails text
  | .leadingParts => text :: tailsAfterSeparator text
  | .trailingParts => (text.head?.filter (· = 0x2F)).elim [] fun _ => tails (text.drop 1)
  | .innerParts => (text.head?.filter (· = 0x2F)).elim [] fun _ =>
      text.drop 1 :: tailsAfterSeparator (text.drop 1)
  | .oneOf negated ranges => afterByte (fun b => ranges.any (inRange b) != negated) text
  | .branches patterns =>
    if eachVoid patterns then [text] else afterAny text patterns

/-- After all tokens one by one, from any of the texts. -/
def afterAll (texts : List Bytes) : List Token → List Bytes
  | [] => texts
  | t :: ts => afterAll (texts.flatMap fun text => after text t).eraseDups ts

/-- After one of the branches that ask for something. -/
def afterAny (text : Bytes) : List (List Token) → List Bytes
  | [] => []
  | p :: ps => (if allVoid p then [] else afterAll [text] p) ++ afterAny text ps

end

/-- The whole path fits; `**` alone fits every path. -/
def fits (tokens : List Token) (path : String) : Bool :=
  match tokens with
  | [.leadingParts] => true
  | _ => (afterAll [bytesOf path] tokens).contains []

end SnippetLint.Glob
