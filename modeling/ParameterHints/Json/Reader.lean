import ParameterHints.Json.Ignored

/-! # Reading values of a known form

A reader knows what it asks for. It reads a value from the beginning of a text, in one pass, and
fails at the first place that does not fit: where the text is no JSON, or where a value of another
type stands. A list or an object in the wrong place is not looked into; a scalar is read first.

A record may be written as an object, with its members in any order and unknown ones in between,
or as a list of its fields in their order of declaration.
-/

namespace ParameterHints.Json.Reader

/-- The error for a number in place of what is expected, unless it is malformed. -/
def foundNumber (expected : String) (s : List Char) : JsonError :=
  match numeral s with
  | .ok (n, _) => .wrongType (.number n) expected
  | .error e => e

/-- The error for a word in place of what is expected, unless it is misspelt. -/
def foundWord (found : JsonFound) (expected : String) (rest : Except JsonError (List Char)) :
    JsonError :=
  match rest with
  | .ok _ => .wrongType found expected
  | .error e => e

/-- The error for a value, or something that is none, in place of what is expected. -/
def mismatch (expected : String) : List Char → JsonError
  | [] => .ended .value
  | c :: s =>
      if c = 'n' then foundWord .null expected (word ['u', 'l', 'l'] s)
      else if c = 't' then foundWord (.boolean true) expected (word ['r', 'u', 'e'] s)
      else if c = 'f' then foundWord (.boolean false) expected (word ['a', 'l', 's', 'e'] s)
      else if c = '"' then
        match quotedRest s with
        | .ok (chars, _) => .wrongType (.text chars) expected
        | .error e => e
      else if c = '-' ∨ isDigit c then foundNumber expected (c :: s)
      else if c = '[' then .wrongType .list expected
      else if c = '\x7b' then .wrongType .object expected
      else .malformed .expectedValue

/-! ## Scalars -/

def boolean : Reader Bool := fun s =>
  match skipSpaces s with
  | 't' :: s => do return (true, ← word ['r', 'u', 'e'] s)
  | 'f' :: s => do return (false, ← word ['a', 'l', 's', 'e'] s)
  | s => .error (mismatch "a boolean" s)

def text : Reader String := fun s =>
  match skipSpaces s with
  | '"' :: s => do
      let (chars, rest) ← quotedRest s
      return (String.ofList chars, rest)
  | s => .error (mismatch "a string" s)

def unsigned32 : Reader Nat := fun s =>
  match skipSpaces s with
  | [] => .error (.ended .value)
  | c :: s =>
      if c = '-' ∨ isDigit c then do
        let (n, rest) ← numeral (c :: s)
        match n with
        | .integer (.ofNat k) =>
            if k < Nat.pow 2 32 then return (k, rest)
            else throw (.outOfRange n "a number of 32 bits")
        | .integer (.negSucc _) => throw (.outOfRange n "a number of 32 bits")
        | .fraction _ _ => throw (.wrongType (.number n) "a number of 32 bits")
      else .error (mismatch "a number of 32 bits" (c :: s))

def nothing : Reader Unit := fun s =>
  match skipSpaces s with
  | 'n' :: s => do return ((), ← word ['u', 'l', 'l'] s)
  | s => .error (mismatch "null" s)

def optional {α : Type} (read : Reader α) : Reader (Option α) := fun s =>
  match skipSpaces s with
  | 'n' :: s => do return (none, ← word ['u', 'l', 'l'] s)
  | s => do
      let (value, rest) ← read s
      return (some value, rest)

/-- The answer of a reader, changed by a function. -/
def mapped {α β : Type} (f : α → β) (read : Reader α) : Reader β := fun s => do
  let (value, rest) ← read s
  return (f value, rest)

/-! ## Lists -/

/-- Where the next element of a list begins, or nothing at the end of the list. -/
def nextElement (first : Bool) (s : List Char) : Except JsonError (Option (List Char)) :=
  match skipSpaces s with
  | [] => .error (.ended .list)
  | c :: s =>
      if c = ']' then .ok none
      else if first then .ok (some (c :: s))
      else if c = ',' then
        match skipSpaces s with
        | [] => .error (.ended .value)
        | ']' :: _ => .error (.malformed .trailingComma)
        | s => .ok (some s)
      else .error (.malformed .expectedCommaOrBracket)

/-- What is left behind the end of a list, where no further element may stand. -/
def endOfList (s : List Char) : Except JsonError (List Char) :=
  match skipSpaces s with
  | [] => .error (.ended .list)
  | ']' :: s => .ok s
  | ',' :: s =>
      if (skipSpaces s).head? = some ']' then .error (.malformed .trailingComma)
      else .error (.malformed .trailingCharacters)
  | _ => .error (.malformed .trailingCharacters)

/-- The elements of a list, of which there are at most `steps`. -/
def elementsWithin {α : Type} (read : Reader α) : (steps : Nat) → (first : Bool) → Reader (List α)
  | 0, _, _ => .error (.ended .list)
  | steps + 1, first, s => do
      match ← nextElement first s with
      | none => return ([], ← endOfList s)
      | some s =>
          let (element, s) ← read s
          let (elements, s) ← elementsWithin read steps false s
          return (element :: elements, s)

def list {α : Type} (read : Reader α) : Reader (List α) := fun s =>
  match skipSpaces s with
  | '[' :: s => elementsWithin read (s.length + 1) true s
  | s => .error (mismatch "a sequence" s)

/-! ## Objects -/

/-- Where the next key of an object begins, behind its quote, or nothing at the end of the
    object. -/
def nextKey (first : Bool) (s : List Char) : Except JsonError (Option (List Char)) :=
  match skipSpaces s with
  | [] => .error (.ended .object)
  | c :: s =>
      if c = '\x7d' then .ok none
      else if first then
        if c = '"' then .ok (some s) else .error (.malformed .keyNotText)
      else if c = ',' then
        match skipSpaces s with
        | [] => .error (.ended .value)
        | '"' :: s => .ok (some s)
        | '\x7d' :: _ => .error (.malformed .trailingComma)
        | _ => .error (.malformed .keyNotText)
      else .error (.malformed .expectedCommaOrBrace)

/-- What is left behind the brace at the end of an object. -/
def endOfObject (s : List Char) : List Char := (skipSpaces s).tail

/-- The members of an object, of which there are at most `steps`. -/
def membersWithin {α : Type} (read : Reader α) :
    (steps : Nat) → (first : Bool) → Reader (List (String × α))
  | 0, _, _ => .error (.ended .object)
  | steps + 1, first, s => do
      match ← nextKey first s with
      | none => return ([], endOfObject s)
      | some s =>
          let (key, s) ← quotedRest s
          let (value, s) ← read (← colon s)
          let (members, s) ← membersWithin read steps false s
          return ((String.ofList key, value) :: members, s)

/-- Enter a value under a key. The keys are kept in ascending order, and a key that is there
    already gets the new value. -/
def enter {α : Type} (key : String) (value : α) : List (String × α) → List (String × α)
  | [] => [(key, value)]
  | (k, v) :: rest =>
      if key = k then (key, value) :: rest
      else if key < k then (key, value) :: (k, v) :: rest
      else (k, v) :: enter key value rest

/-- An object whose keys are free. Of repeated keys the last one counts. -/
def dictionary {α : Type} (read : Reader α) : Reader (List (String × α)) := fun s =>
  match skipSpaces s with
  | '\x7b' :: s => do
      let (members, rest) ← membersWithin read (s.length + 1) true s
      return (members.foldl (fun entries (key, value) => enter key value entries) [], rest)
  | s => .error (mismatch "a map" s)

/-! ## Records -/

structure Field (α : Type) where
  name : String
  read : Reader α

/-- How a record was written. -/
inductive RecordForm where
  | object
  | list
  deriving DecidableEq

/-- The fields that are there in a record written as an object with at most `steps` members, given
    the names of those that came before. -/
def fieldsWithin {α : Type} (fields : List (Field α)) :
    (steps : Nat) → (seen : List String) → (first : Bool) → Reader (List (String × α))
  | 0, _, _, _ => .error (.ended .object)
  | steps + 1, seen, first, s => do
      match ← nextKey first s with
      | none => return ([], endOfObject s)
      | some s =>
          let (key, s) ← quotedRest s
          let name := String.ofList key
          match fields.find? (·.name == name) with
          | some field =>
              if name ∈ seen then throw (.duplicateField name)
              let (value, s) ← field.read (← colon s)
              let (others, s) ← fieldsWithin fields steps (name :: seen) false s
              return ((name, value) :: others, s)
          | none =>
              let s ← skipValue (← colon s)
              fieldsWithin fields steps seen false s

/-- The fields that are there in a record written as a list, up to its end. -/
def fieldsInOrder {α : Type} : List (Field α) → (first : Bool) → Reader (List (String × α))
  | [], _, s => .ok ([], s)
  | field :: fields, first, s => do
      match ← nextElement first s with
      | none => return ([], s)
      | some s =>
          let (value, s) ← field.read s
          let (others, s) ← fieldsInOrder fields false s
          return ((field.name, value) :: others, s)

/-- A record: how it was written, and the fields that are there. -/
def record {α : Type} (expected : String) (fields : List (Field α)) :
    Reader (RecordForm × List (String × α)) := fun s =>
  match skipSpaces s with
  | '\x7b' :: s => do
      let (values, rest) ← fieldsWithin fields (s.length + 1) [] true s
      return ((.object, values), rest)
  | '[' :: s => do
      let (values, s) ← fieldsInOrder fields true s
      return ((.list, values), ← endOfList s)
  | s => .error (mismatch expected s)

/-! ## Whole texts -/

def readAll {α : Type} (read : Reader α) (s : List Char) : Except JsonError α := do
  let (value, rest) ← read s
  if (skipSpaces rest).isEmpty then return value else throw (.malformed .trailingCharacters)

end ParameterHints.Json.Reader
