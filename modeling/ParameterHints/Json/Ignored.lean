import ParameterHints.Json.Number

/-! # Values that are not kept

The value of an unknown member is only checked for its form. It may be nested to any depth: the
brackets around the place that has been reached are kept in a list.
-/

namespace ParameterHints.Json

inductive Bracket where
  | list
  | object
  deriving DecidableEq

namespace Bracket

def ended : Bracket → JsonError
  | list => .ended .list
  | object => .ended .object

def closing : Bracket → Char
  | list => ']'
  | object => '\x7d'

/-- The error for something else than a comma or the closing bracket behind a value. -/
def unseparated : Bracket → JsonError
  | list => .malformed .expectedCommaOrBracket
  | object => .malformed .expectedCommaOrBrace

end Bracket

def colon (s : List Char) : Except JsonError (List Char) :=
  match skipSpaces s with
  | [] => .error (.ended .object)
  | c :: s => if c = ':' then .ok s else .error (.malformed .expectedColon)

/-- What is left behind the key and the colon of a member that is not kept. -/
def skipKey (s : List Char) : Except JsonError (List Char) :=
  match skipSpaces s with
  | [] => .error (.ended .object)
  | c :: s => if c = '"' then do colon (← skipQuoted s) else .error (.malformed .keyNotText)

/-- What is left in front of the value of an element or member that is not kept. -/
def skipToValue (b : Bracket) (s : List Char) : Except JsonError (List Char) :=
  match b with
  | .list => .ok s
  | .object => skipKey s

/-- What comes next inside the open brackets. -/
inductive Expecting where
  | value
  /-- A first element or member, or the end of the innermost bracket. -/
  | firstOrEnd
  /-- A comma, or the end of the innermost bracket. -/
  | commaOrEnd

def skipScalar : List Char → Except JsonError (List Char)
  | [] => .error (.ended .value)
  | c :: s =>
      if c = 'n' then word ['u', 'l', 'l'] s
      else if c = 't' then word ['r', 'u', 'e'] s
      else if c = 'f' then word ['a', 'l', 's', 'e'] s
      else if c = '"' then skipQuoted s
      else if c = '-' ∨ isDigit c then skipNumber (c :: s)
      else .error (.malformed .expectedValue)

/-- What is left behind the outermost of the open brackets, or behind one value when none is open.
    Every step but the one into a first element reads a character, so twice as many steps as there
    are characters are enough. -/
def skipWithin : (steps : Nat) → Expecting → List Bracket → List Char →
    Except JsonError (List Char)
  | 0, _, _, _ => .error (.ended .value)
  | steps + 1, .value, brackets, s =>
      match skipSpaces s with
      | '[' :: s => skipWithin steps .firstOrEnd (.list :: brackets) s
      | '\x7b' :: s => skipWithin steps .firstOrEnd (.object :: brackets) s
      | s => do
          let rest ← skipScalar s
          if brackets.isEmpty then return rest
          skipWithin steps .commaOrEnd brackets rest
  | _ + 1, _, [], s => .ok s
  | steps + 1, expecting, bracket :: outer, s =>
      match skipSpaces s, expecting with
      | [], _ => .error bracket.ended
      | c :: rest, .firstOrEnd =>
          if c = bracket.closing then
            if outer.isEmpty then .ok rest else skipWithin steps .commaOrEnd outer rest
          else do skipWithin steps .value (bracket :: outer) (← skipToValue bracket (c :: rest))
      | c :: rest, _ =>
          if c = ',' then do
            skipWithin steps .value (bracket :: outer) (← skipToValue bracket rest)
          else if c = bracket.closing then
            if outer.isEmpty then .ok rest else skipWithin steps .commaOrEnd outer rest
          else .error bracket.unseparated

def skipValue (s : List Char) : Except JsonError (List Char) :=
  skipWithin (2 * s.length + 2) .value [] s

end ParameterHints.Json
