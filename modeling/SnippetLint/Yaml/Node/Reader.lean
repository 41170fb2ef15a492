import SnippetLint.Yaml.Document
import SnippetLint.Yaml.Token.Lexer

/-! Nodes from tokens. -/
namespace SnippetLint.Yaml

structure Reader where
  tokens : List Token
  /-- The names of anchors with their numbers, latest first. -/
  anchors : List (String × Nat)
  /-- What the handles of tags stand for. -/
  handles : List (String × String)

namespace Reader

abbrev Read := StateT Reader Option

def peek : Read (Option Token) := return (← get).tokens.head?

def skip : Read Unit := modify fun r => { r with tokens := r.tokens.tail }

def expect (t : Token) : Read Unit := do
  if (← peek) == some t then skip else failure

/-- A new anchor gets the number of names that are known before it, its own among them if it is
one of these. -/
def nameAnchor (name : String) : Read Nat := do
  let r ← get
  let number := r.anchors.length
  set { r with anchors := (name, number) :: r.anchors.filter (·.1 != name) }
  return number

def aliasNode (name : String) : Read Node := do
  match (← get).anchors.lookup name with
  | some number => return .alias number
  | none => failure

def tagText (t : Tag) : Read String := do
  if t.handle.isEmpty then return t.suffix
  match (← get).handles.lookup t.handle with
  | some meaning => return meaning ++ t.suffix
  | none => failure

structure Properties where
  anchor : Option String
  tag : Option Tag

/-- An anchor and a tag, in either order. -/
def properties : Read Properties := do
  match ← peek with
  | some (.anchor name) =>
    skip
    match ← peek with
    | some (.tag t) => skip; return ⟨some name, some t⟩
    | _ => return ⟨some name, none⟩
  | some (.tag t) =>
    skip
    match ← peek with
    | some (.anchor name) => skip; return ⟨some name, some t⟩
    | _ => return ⟨none, some t⟩
  | _ => return ⟨none, none⟩

/-- An empty node before one of the tokens `ends`, and else what `read` gives. -/
def orEmpty (ends : List Token) (read : Read Node) : Read Node := do
  match ← peek with
  | some t => if ends.contains t then return .empty else read
  | none => read

mutual

/-- A node. Only `inBlock` may it be a block, and only where `entriesAllowed` a sequence whose
entries stand as far left as the key before them. -/
def node : Nat → Bool → Bool → Read Node
  | 0, _, _ => failure
  | fuel + 1, inBlock, entriesAllowed => do
    if let some (.alias name) ← peek then
      skip
      aliasNode name
    else
      let p ← properties
      let tag ← p.tag.mapM tagText
      let number ← p.anchor.mapM nameAnchor
      let bare := p.anchor.isSome || p.tag.isSome
      let content ← content fuel inBlock entriesAllowed (tag.getD "") bare
      return number.elim content (.anchored · content)

/-- What a node holds; nothing if it may be `bare`. -/
def content : Nat → Bool → Bool → String → Bool → Read Node
  | 0, _, _, _, _ => failure
  | fuel + 1, inBlock, entriesAllowed, tag, bare => do
    match ← peek with
    | some (.scalar style text) => skip; return .scalar style tag text
    | some .openBracket => skip; return .sequence (← flowItems fuel true)
    | some .openBrace => skip; return .mapping (← flowPairs fuel true)
    | t =>
      if t == some .entry && entriesAllowed then return .sequence (← entries fuel)
      else if t == some .sequenceStart && inBlock then
        skip
        let items ← blockItems fuel
        return .sequence items
      else if t == some .mappingStart && inBlock then
        skip
        let pairs ← blockPairs fuel
        return .mapping pairs
      else if bare then return .scalar .plain tag ""
      else failure

def blockItems : Nat → Read (List Node)
  | 0 => failure
  | fuel + 1 => do
    match ← peek with
    | some .entry =>
      skip
      let item ← orEmpty [.entry, .blockEnd] (node fuel true false)
      return item :: (← blockItems fuel)
    | _ => expect .blockEnd; return []

def entries : Nat → Read (List Node)
  | 0 => failure
  | fuel + 1 => do
    match ← peek with
    | some .entry =>
      skip
      let item ← orEmpty [.entry, .key, .value, .blockEnd] (node fuel true false)
      return item :: (← entries fuel)
    | _ => return []

def blockPairs : Nat → Read (List (Node × Node))
  | 0 => failure
  | fuel + 1 => do
    match ← peek with
    | some .key =>
      skip
      let ends := [.key, .value, .blockEnd]
      let key ← orEmpty ends (node fuel true true)
      match ← peek with
      | some .value =>
        skip
        let value ← orEmpty ends (node fuel true true)
        return (key, value) :: (← blockPairs fuel)
      | _ => return (key, .empty) :: (← blockPairs fuel)
    | _ => expect .blockEnd; return []

/-- The items up to the bracket that closes them. An item may be a single pair. -/
def flowItems : Nat → Bool → Read (List Node)
  | 0, _ => failure
  | fuel + 1, first => do
    if (← peek) == some .closeBracket then
      skip
      return []
    if !first then expect .comma
    match ← peek with
    | some .key =>
      skip
      let pair ← flowPair fuel
      return .mapping [pair] :: (← flowItems fuel false)
    | some .closeBracket => skip; return []
    | _ =>
      let item ← node fuel false false
      return item :: (← flowItems fuel false)

/-- A pair among items. A token that leaves the key out is passed over. -/
def flowPair : Nat → Read (Node × Node)
  | 0 => failure
  | fuel + 1 => do
    let key ← match ← peek with
      | some .value | some .comma | some .closeBracket => do skip; pure .empty
      | _ => node fuel false false
    if (← peek) == some .value then
      skip
      return (key, ← orEmpty [.comma, .closeBracket] (node fuel false false))
    else return (key, .empty)

def flowPairs : Nat → Bool → Read (List (Node × Node))
  | 0, _ => failure
  | fuel + 1, first => do
    if (← peek) == some .closeBrace then
      skip
      return []
    if !first then expect .comma
    match ← peek with
    | some .key =>
      skip
      let key ← orEmpty [.value, .comma, .closeBrace] (node fuel false false)
      if (← peek) == some .value then
        skip
        let value ← orEmpty [.comma, .closeBrace] (node fuel false false)
        return (key, value) :: (← flowPairs fuel false)
      else return (key, .empty) :: (← flowPairs fuel false)
    | some .closeBrace => skip; return []
    | _ =>
      let key ← node fuel false false
      return (key, .empty) :: (← flowPairs fuel false)

end

def directives (ts : List Token) : List Directive :=
  (ts.takeWhile (· matches .directive _)).filterMap fun
    | .directive d => some d
    | _ => none

/-- Nothing is said twice, and the version is one that can be read. -/
def consistent : List Directive → Bool
  | [] => true
  | .version major minor :: ds =>
    major == 1 && (minor == 1 || minor == 2) && !(ds.any (· matches .version ..)) && consistent ds
  | .tag handle _ :: ds =>
    !(ds.any fun | .tag h _ => h == handle | _ => false) && consistent ds

def standardHandles : List (String × String) := [("!", "!"), ("!!", "tag:yaml.org,2002:")]

def givenHandles (ds : List Directive) : List (String × String) :=
  ds.filterMap fun
    | .tag handle meaning => some (handle, meaning)
    | _ => none

/-- More than the depth of the calls, each but a few of which reads a token. -/
def fuelFor (ts : List Token) : Nat := 4 * ts.length + 4

/-- The only document of a text, of which nothing but end markers may be left. -/
def document : Read Document := do
  let ts := (← get).tokens
  let ds := directives ts
  let root? ← match ts.drop ds.length with
    | [] => if ds.isEmpty then pure none else failure
    | .documentStart :: rest =>
      if !consistent ds then failure
      set (⟨rest, [], givenHandles ds ++ standardHandles⟩ : Reader)
      match rest with
      | [] | .documentStart :: _ | .documentEnd :: _ | .directive _ :: _ => pure (some .empty)
      | _ => some <$> node (fuelFor ts) true false
    | _ => if ds.isEmpty then some <$> node (fuelFor ts) true false else failure
  if (← get).tokens.all (· == .documentEnd) then return ⟨root?⟩ else failure

end Reader

namespace Document

def ofTokens? (ts : List Token) : Option Document :=
  (Reader.document.run ⟨ts, [], Reader.standardHandles⟩).map Prod.fst

def ofText? (text : List Char) : Option Document := (tokens? text).bind ofTokens?

end Document
end SnippetLint.Yaml
