import SnippetLint.Yaml.Scalar.Block
import SnippetLint.Yaml.Scalar.Plain
import SnippetLint.Yaml.Scalar.Quoted
import SnippetLint.Yaml.Tag

/-! Tokens of a YAML text. A key shows only at its colon, so a token that may begin one is
remembered, and the tokens that open the key are put before it later. -/
namespace SnippetLint.Yaml

/-- A token that may turn out to begin a key. -/
structure PendingKey where
  spot : Spot
  /-- Tokens before it. -/
  number : Nat
  /-- Nothing but a key can stand there. -/
  required : Bool

namespace PendingKey

/-- A key must be on one line and short. -/
def isStale (k : PendingKey) (s : Spot) : Bool :=
  k.spot.line < s.line || k.spot.index + 1024 < s.index

/-- `none` if a required key has gone stale. -/
def refresh? (s : Spot) : Option PendingKey → Option (Option PendingKey)
  | none => some none
  | some k => if k.isStale s then if k.required then none else some none else some (some k)

end PendingKey

structure Lexer where
  rest : List Spot
  tokens : Array Token
  key : Option PendingKey
  /-- What was pending before each bracket that is open. -/
  outerKeys : List (Option PendingKey)
  /-- The columns of the open blocks, innermost first. -/
  blocks : List Nat
  keyAllowed : Bool

namespace Lexer

def inFlow (l : Lexer) : Bool := !l.outerKeys.isEmpty

/-- The first column inside the innermost block. -/
def floor (l : Lexer) : Nat := l.blocks.head?.elim 0 (· + 1)

def emit (l : Lexer) (t : Token) : Lexer := { l with tokens := l.tokens.push t }

/-- The key that is pending is none after all. -/
def dropKey? (l : Lexer) : Option Lexer :=
  if l.key.any (·.required) then none else some { l with key := none }

/-- The next token may begin a key. -/
def noteKey? (l : Lexer) (s : Spot) : Option Lexer :=
  if l.keyAllowed then do
    let l ← l.dropKey?
    return { l with key := some ⟨s, l.tokens.size, !l.inFlow && l.blocks.head? == some s.column⟩ }
  else some l

/-- A block begins at the column, before the token of that number. -/
def openBlock (l : Lexer) (column number : Nat) (start : Token) : Lexer :=
  if l.inFlow || l.blocks.head?.any (column ≤ ·) then l
  else { l with
    blocks := column :: l.blocks
    tokens := l.tokens.insertIdxIfInBounds number start }

/-- The innermost blocks end whose columns `ends` tells to. -/
def closeBlocks (l : Lexer) (ends : Nat → Bool) : Lexer :=
  if l.inFlow then l
  else { l with
    blocks := l.blocks.dropWhile ends
    tokens := l.tokens ++ (l.blocks.takeWhile ends).map fun _ => Token.blockEnd }

/-- The text up to the next token, and whether a key may begin there. Outside brackets a key may
begin on each line, and no tab may stand where a key may. -/
def gap (inFlow keyAllowed inComment : Bool) : List Spot → Bool × List Spot
  | [] => (keyAllowed, [])
  | s :: rest =>
    if s.isBreak then gap inFlow (keyAllowed || !inFlow) false rest
    else if inComment || s.char = '#' then gap inFlow keyAllowed true rest
    else if s.char = ' ' || (s.char = '\t' && (inFlow || !keyAllowed)) ||
        (s.char = '\ufeff' && s.column = 0) then gap inFlow keyAllowed false rest
    else (keyAllowed, s :: rest)

def document? (l : Lexer) (t : Token) (rest : List Spot) : Option Lexer := do
  let l ← (l.closeBlocks fun _ => true).dropKey?
  return { l.emit t with rest, keyAllowed := false }

def openFlow? (l : Lexer) (t : Token) (s : Spot) (rest : List Spot) : Option Lexer := do
  let l ← l.noteKey? s
  return { l.emit t with rest, key := none, outerKeys := l.key :: l.outerKeys, keyAllowed := true }

def closeFlow? (l : Lexer) (t : Token) (rest : List Spot) : Option Lexer := do
  let l := (← l.dropKey?).emit t
  match l.outerKeys with
  | [] => return { l with rest, keyAllowed := false }
  | key :: outerKeys => return { l with rest, key, outerKeys, keyAllowed := false }

def comma? (l : Lexer) (rest : List Spot) : Option Lexer := do
  return { (← l.dropKey?).emit .comma with rest, keyAllowed := true }

def entry? (l : Lexer) (s : Spot) (rest : List Spot) : Option Lexer :=
  if !l.inFlow && !l.keyAllowed then none
  else do
    let l ← (l.openBlock s.column l.tokens.size .sequenceStart).dropKey?
    return { l.emit .entry with rest, keyAllowed := true }

def key? (l : Lexer) (s : Spot) (rest : List Spot) : Option Lexer :=
  if !l.inFlow && !l.keyAllowed then none
  else do
    let l ← (l.openBlock s.column l.tokens.size .mappingStart).dropKey?
    return { l.emit .key with rest, keyAllowed := !l.inFlow }

def value? (l : Lexer) (s : Spot) (rest : List Spot) : Option Lexer :=
  match l.key with
  | some k =>
    let l := { l with tokens := l.tokens.insertIdxIfInBounds k.number .key }
    let l := l.openBlock k.spot.column k.number .mappingStart
    some { l.emit .value with rest, key := none, keyAllowed := false }
  | none =>
    if !l.inFlow && !l.keyAllowed then none
    else
      let l := l.openBlock s.column l.tokens.size .mappingStart
      some { l.emit .value with rest, keyAllowed := !l.inFlow }

/-- A token that a key may begin with. -/
def atom? (l : Lexer) (s : Spot) (read : Option (Token × List Spot)) : Option Lexer := do
  let l ← l.noteKey? s
  let (t, rest) ← read
  return { l.emit t with rest, keyAllowed := false }

def scalar (style : Style) (r : List Char × List Spot) : Token × List Spot :=
  (.scalar style (String.ofList r.1), r.2)

def blockScalar? (l : Lexer) (style : Style) (rest : List Spot) : Option Lexer := do
  let l ← l.dropKey?
  let r ← block? (style == .folded) l.floor rest
  return { l.emit (scalar style r).1 with rest := r.2, keyAllowed := true }

/-- A line that ends inside a plain scalar lets a key begin after it. -/
def plainScalar? (l : Lexer) (s : Spot) (rest : List Spot) : Option Lexer := do
  let l ← l.noteKey? s
  let p ← plain? l.inFlow l.floor (s :: rest)
  return { l.emit (.scalar .plain (String.ofList p.text)) with
    rest := p.rest, keyAllowed := p.endsLine }

/-- No plain scalar begins with one of these. A dash, a question mark or a colon may begin one
wherever it is no token by itself. -/
def indicators : List Char :=
  [',', '[', ']', '{', '}', '#', '&', '*', '!', '|', '>', '\'', '"', '%', '@', '\x60']

/-- The token at `s`. -/
def token? (l : Lexer) (s : Spot) (rest : List Spot) : Option Lexer :=
  let c := s.char
  let apart := Spots.atSpacing rest
  if c = '%' ∧ s.column = 0 then do
    let (d, after) ← Directive.read? rest
    l.document? (.directive d) after
  else if Spots.atMarker '-' (s :: rest) then l.document? .documentStart (rest.drop 2)
  else if Spots.atMarker '.' (s :: rest) then l.document? .documentEnd (rest.drop 2)
  else if c = '[' then l.openFlow? .openBracket s rest
  else if c = '{' then l.openFlow? .openBrace s rest
  else if c = ']' then l.closeFlow? .closeBracket rest
  else if c = '}' then l.closeFlow? .closeBrace rest
  else if c = ',' then l.comma? rest
  else if c = '-' ∧ apart then l.entry? s rest
  else if c = '?' ∧ (l.inFlow ∨ apart) then l.key? s rest
  else if c = ':' ∧ (l.inFlow ∨ apart) then l.value? s rest
  else if c = '*' then l.atom? s ((anchorName? rest).map fun r => (.alias r.1, r.2))
  else if c = '&' then l.atom? s ((anchorName? rest).map fun r => (.anchor r.1, r.2))
  else if c = '!' then l.atom? s ((Tag.read? l.inFlow rest).map fun r => (.tag r.1, r.2))
  else if c = '|' ∧ !l.inFlow then l.blockScalar? .literal rest
  else if c = '>' ∧ !l.inFlow then l.blockScalar? .folded rest
  else if c = '\'' then l.atom? s ((singleQuoted? rest).map (scalar .quoted))
  else if c = '"' then l.atom? s ((doubleQuoted? rest).map (scalar .quoted))
  else if s.isSpacing ∨ indicators.contains c then none
  else l.plainScalar? s rest

def step? (l : Lexer) (s : Spot) (rest : List Spot) : Option Lexer := do
  let key ← PendingKey.refresh? s l.key
  let outerKeys ← l.outerKeys.mapM (PendingKey.refresh? s)
  ({ l with key, outerKeys }.closeBlocks (s.column < ·)).token? s rest

/-- Every step reads a character, so the number of characters is fuel enough. -/
def run? : Nat → Lexer → Option (List Token)
  | 0, _ => none
  | fuel + 1, l =>
    match gap l.inFlow l.keyAllowed false l.rest with
    | (_, []) => (l.closeBlocks fun _ => true).dropKey?.map (·.tokens.toList)
    | (keyAllowed, s :: rest) => ({ l with keyAllowed }.step? s rest).bind (run? fuel)

end Lexer

/-- The tokens of a text, if it has any sense. -/
def tokens? (text : List Char) : Option (List Token) := do
  let spots ← spots? text
  Lexer.run? (spots.length + 1) ⟨spots, #[], none, [], [], true⟩

end SnippetLint.Yaml
