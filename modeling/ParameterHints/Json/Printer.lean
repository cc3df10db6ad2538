/-! # Writing JSON

Settings and records are written as values without any space between lexemes. In a text only the
quote, the backslash and the control characters are escaped.
-/

namespace ParameterHints

/-- A JSON value; every number is a natural one, and the members of an object keep their order. -/
inductive Json where
  | null
  | boolean (b : Bool)
  | number (n : Nat)
  | text (s : String)
  | list (items : List Json)
  | object (members : List (String × Json))

namespace Json

def escaped (c : Char) : List Char :=
  if c = '"' then ['\\', '"']
  else if c = '\\' then ['\\', '\\']
  else if c = '\x08' then ['\\', 'b']
  else if c = '\x0c' then ['\\', 'f']
  else if c = '\n' then ['\\', 'n']
  else if c = '\r' then ['\\', 'r']
  else if c = '\t' then ['\\', 't']
  else if c < ' ' then
    ['\\', 'u', '0', '0', Nat.digitChar (c.toNat / 16), Nat.digitChar (c.toNat % 16)]
  else [c]

def writeText (s : List Char) : List Char := '"' :: s.flatMap escaped ++ ['"']

def writeBoolean (b : Bool) : List Char := if b then "true".toList else "false".toList

mutual

def writeValue : Json → List Char
  | .null => "null".toList
  | .boolean b => writeBoolean b
  | .number n => Nat.toDigits 10 n
  | .text s => writeText s.toList
  | .list [] => ['[', ']']
  | .list (item :: items) => '[' :: writeValue item ++ writeItems items
  | .object [] => ['\x7b', '\x7d']
  | .object (member :: members) => '\x7b' :: writeMember member ++ writeMembers members

/-- The items of a list behind its first, up to the closing bracket. -/
def writeItems : List Json → List Char
  | [] => [']']
  | item :: items => ',' :: writeValue item ++ writeItems items

def writeMember : String × Json → List Char
  | (key, value) => writeText key.toList ++ ':' :: writeValue value

/-- The members of an object behind its first, up to the closing brace. -/
def writeMembers : List (String × Json) → List Char
  | [] => ['\x7d']
  | member :: members => ',' :: writeMember member ++ writeMembers members

end

end Json

end ParameterHints
