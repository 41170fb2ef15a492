import SnippetLint.Text.WordChar

/-! White space, pieces of a text, and looking for something in it. White space is what the Unicode
property `White_Space` has. A reader takes what it wants from the front of a text and leaves the
rest; where it may begin can hang on the character before. -/
namespace SnippetLint.Text

def isBlank (c : Char) : Bool :=
  let n := c.toNat
  (9 ≤ n && n ≤ 13) || n == 0x20 || n == 0x85 || n == 0xA0 || n == 0x1680 ||
    (0x2000 ≤ n && n ≤ 0x200A) || n == 0x2028 || n == 0x2029 || n == 0x202F ||
    n == 0x205F || n == 0x3000

def skipBlanks (cs : List Char) : List Char := cs.dropWhile isBlank

/-- At least one blank, and all that follow it. -/
def skipBlanks1? : List Char → Option (List Char)
  | [] => none
  | c :: cs => if isBlank c then some (skipBlanks cs) else none

def trimEnd (cs : List Char) : List Char := (cs.reverse.dropWhile isBlank).reverse

def trim (cs : List Char) : List Char := trimEnd (skipBlanks cs)

/-- Whether `piece` stands somewhere in the text. -/
def hasPiece (piece : List Char) : List Char → Bool
  | [] => piece.isEmpty
  | c :: cs => piece.isPrefixOf (c :: cs) || hasPiece piece cs

theorem hasPiece_iff {piece text : List Char} : hasPiece piece text ↔ piece <:+: text := by
  induction text with
  | nil => simp [hasPiece]
  | cons c cs ih => simp [hasPiece, ih, List.infix_cons_iff]

variable {α : Type}

/-- `p` holds of the character before some place and of the text from there on. -/
def occursFrom (p : Option Char → List Char → Bool) (before : Option Char) : List Char → Bool
  | [] => false
  | c :: cs => p before (c :: cs) || occursFrom p (some c) cs

def occurs (p : Option Char → List Char → Bool) (text : List Char) : Bool :=
  occursFrom p none text

/-- `skip` characters at the front belong to the match before. -/
def findAllFrom (read : Option Char → List Char → Option (α × List Char)) (place : Nat)
    (before : Option Char) : Nat → List Char → List (Nat × α)
  | _, [] => []
  | skip + 1, c :: cs => findAllFrom read (place + 1) (some c) skip cs
  | 0, c :: cs =>
    match read before (c :: cs) with
    | some (a, rest) =>
      (place, a) :: findAllFrom read (place + 1) (some c) (cs.length - rest.length) cs
    | none => findAllFrom read (place + 1) (some c) 0 cs

/-- All that `read` takes from left to right without overlap, each with the number of characters
before it. -/
def findAll (read : Option Char → List Char → Option (α × List Char)) (text : List Char) :
    List (Nat × α) :=
  findAllFrom read 0 none 0 text

def find? (read : Option Char → List Char → Option (α × List Char)) (text : List Char) :
    Option (Nat × α) :=
  (findAll read text).head?

/-- What follows the word `w`, which stands whole at the front. -/
def wholeWord? (w : String) (before : Option Char) (cs : List Char) : Option (List Char) :=
  if wordStart before then (w.toList.isPrefixOf? cs).filter wordEnd else none

/-- What follows the first of the words that stands whole at the front. -/
def oneOfWords? (ws : List String) (before : Option Char) (cs : List Char) : Option (List Char) :=
  ws.findSome? fun w => wholeWord? w before cs

/-- What follows the character `c`. -/
def char? (c : Char) : List Char → Option (List Char)
  | [] => none
  | d :: ds => if d = c then some ds else none

def hasWord (w : String) (text : List Char) : Bool :=
  occurs (fun before cs => (wholeWord? w before cs).isSome) text

/-- One word character or more. -/
def wordRun? : List Char → Option (List Char)
  | [] => none
  | c :: cs => if isWordChar c then some (cs.dropWhile isWordChar) else none

/-- The text before the first `stop`, and what follows it. -/
def upTo? (stop : Char) (cs : List Char) : Option (List Char × List Char) :=
  match cs.dropWhile (· != stop) with
  | [] => none
  | _ :: rest => some (cs.takeWhile (· != stop), rest)

end SnippetLint.Text
