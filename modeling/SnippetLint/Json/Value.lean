/-! JSON values, and their text with an indent of two blanks. -/
namespace SnippetLint

/-- A number is `mantissa / 10 ^ places`; whole numbers have no places. The members of an object
keep their order. -/
inductive JsonValue where
  | null
  | bool (b : Bool)
  | number (mantissa : Int) (places : Nat)
  | string (s : String)
  | array (items : List JsonValue)
  | object (members : List (String × JsonValue))
deriving Repr, Inhabited

namespace JsonValue

def nat (n : Nat) : JsonValue := .number n 0

/-- A whole number that fits an unsigned word of 64 bits. -/
def word64? : JsonValue → Option Nat
  | .number (.ofNat n) 0 => if n < UInt64.size then some n else none
  | _ => none

def string? : JsonValue → Option String
  | .string s => some s
  | _ => none

/-- The value of a member, the first of the name. -/
def find? (name : String) (members : List (String × JsonValue)) : Option JsonValue :=
  members.lookup name

def hexDigit (n : Nat) : Char := "0123456789abcdef".toList.getD n '0'

def escaped (c : Char) : List Char :=
  if c = '"' then ['\\', '"']
  else if c = '\\' then ['\\', '\\']
  else if c = '\n' then ['\\', 'n']
  else if c = '\r' then ['\\', 'r']
  else if c = '\t' then ['\\', 't']
  else if c = '\x08' then ['\\', 'b']
  else if c = '\x0c' then ['\\', 'f']
  else if c.toNat < 0x20 then
    ['\\', 'u', '0', '0', hexDigit (c.toNat / 16), hexDigit (c.toNat % 16)]
  else [c]

def quoted (s : String) : String := String.ofList ('"' :: s.toList.flatMap escaped ++ ['"'])

def numberText (mantissa : Int) (places : Nat) : String :=
  if places = 0 then toString mantissa
  else
    let digits := toString mantissa.natAbs
    let padded := String.ofList (List.replicate (places + 1 - digits.length) '0') ++ digits
    let whole := padded.toList.take (padded.length - places)
    let part := padded.toList.drop (padded.length - places)
    (if mantissa < 0 then "-" else "") ++ String.ofList whole ++ "." ++ String.ofList part

/-- The start of a line at a depth of nesting. -/
def indent (depth : Nat) : String := "\n" ++ String.ofList (List.replicate (2 * depth) ' ')

mutual

def prettyAt (depth : Nat) : JsonValue → String
  | .null => "null"
  | .bool b => if b then "true" else "false"
  | .number m p => numberText m p
  | .string s => quoted s
  | .array [] => "[]"
  | .array (v :: vs) =>
    "[" ++ indent (depth + 1) ++ prettyAt (depth + 1) v ++ prettyItems (depth + 1) vs ++
      indent depth ++ "]"
  | .object [] => "\x7b\x7d"
  | .object ((k, v) :: ms) =>
    "\x7b" ++ indent (depth + 1) ++ quoted k ++ ": " ++ prettyAt (depth + 1) v ++
      prettyMembers (depth + 1) ms ++ indent depth ++ "\x7d"

/-- Further items, each after a comma. -/
def prettyItems (depth : Nat) : List JsonValue → String
  | [] => ""
  | v :: vs => "," ++ indent depth ++ prettyAt depth v ++ prettyItems depth vs

def prettyMembers (depth : Nat) : List (String × JsonValue) → String
  | [] => ""
  | (k, v) :: ms =>
    "," ++ indent depth ++ quoted k ++ ": " ++ prettyAt depth v ++ prettyMembers depth ms

end

/-- One item or member a line; what is empty stays on its line. -/
def pretty (v : JsonValue) : String := prettyAt 0 v

end JsonValue
end SnippetLint
