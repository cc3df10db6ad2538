import ParameterHints.Json.Lexeme

/-! # The numbers of JSON

A number without point and exponent that fits into 64 bits, with its sign, is a whole number. Any
other is a binary fraction: its digits, as many as fit into 64 bits, are rounded to a binary
number, which is then multiplied or divided once by the rounded power of ten.
-/

namespace ParameterHints.Json

def isDigit (c : Char) : Bool := '0' ≤ c && c ≤ '9'

def digitValue (c : Char) : Nat := c.toNat - 48

def maxUnsigned : Nat := 18446744073709551615

/-- Put digits behind those of a number as long as the result fits into 64 bits. The answer counts
    the digits that were put there. -/
def appendDigits (n : Nat) : List Char → Nat × Nat
  | [] => (n, 0)
  | c :: digits =>
      let next := n * 10 + digitValue c
      if maxUnsigned < next then (n, 0)
      else
        let (value, count) := appendDigits next digits
        (value, count + 1)

/-- A power of ten, rounded. -/
def powerOfTen (e : Nat) : Option Binary64 := Binary64.ofQuotient (Nat.pow 10 e) 1

/-- Divide so many times by `10 ^ 308`, the largest power of ten there is, and then by
    `10 ^ rest`, rounding each time. Nothing more happens once zero is reached. -/
def divideByPower (x : Binary64) : (times : Nat) → (rest : Nat) → Option Binary64
  | 0, rest => (powerOfTen rest).bind x.div
  | times + 1, rest =>
      if x.significand = 0 then some x
      else do divideByPower (← x.div (← powerOfTen 308)) times rest

/-- The number `n * 10 ^ exponent`, unless it is too large. -/
def scaleByTen (n : Nat) (exponent : Int) : Option Binary64 := do
  let x ← Binary64.ofQuotient n 1
  if 0 ≤ exponent then
    if exponent ≤ 308 then x.mul (← powerOfTen exponent.toNat)
    else if n = 0 then some x
    else none
  else
    let e := (-exponent).toNat
    divideByPower x ((e - 1) / 308) ((e - 1) % 308 + 1)

/-- The largest exponent that is looked at. -/
def maxExponent : Nat := 2147483647

def fraction (negative : Bool) (n : Nat) (exponent : Int) : Except JsonError Numeral :=
  match scaleByTen n exponent with
  | some x => .ok (.fraction negative x)
  | none => .error (.malformed .numberTooLarge)

/-- The error for a place in a number where a digit is missing. -/
def missingDigit : List Char → JsonError
  | [] => .ended .value
  | _ :: _ => .malformed .invalidNumber

/-- The sign of an exponent, whether it is negative, and what is left behind it. -/
def exponentSign : List Char → Bool × List Char
  | '+' :: s => (false, s)
  | '-' :: s => (true, s)
  | s => (false, s)

def digitsValue (digits : List Char) : Nat := digits.foldl (fun n c => n * 10 + digitValue c) 0

/-- The rest of a fraction behind the letter of its exponent. An exponent that is too large to be
    looked at leaves zero, or a number that is too large. -/
def exponentRest (negative : Bool) (n : Nat) (before : Int) : Reader Numeral := fun s => do
  let (down, s) := exponentSign s
  let digits := s.takeWhile isDigit
  let rest := s.dropWhile isDigit
  if digits.isEmpty then throw (missingDigit rest)
  let e := digitsValue digits
  if maxExponent < e then
    if n ≠ 0 ∧ !down then throw (.malformed .numberTooLarge)
    return (.fraction negative .zero, rest)
  return (← fraction negative n (if down then before - e else before + e), rest)

/-- The rest of a fraction behind its digits: an exponent, or nothing. -/
def exponentOrEnd (negative : Bool) (n : Nat) (before : Int) : Reader Numeral
  | 'e' :: s | 'E' :: s => exponentRest negative n before s
  | s => do return (← fraction negative n before, s)

/-- The rest of a number behind its whole digits, of which the last `dropped` did not fit. -/
def numberRest (negative : Bool) (n dropped : Nat) : Reader Numeral
  | '.' :: s => do
      let digits := s.takeWhile isDigit
      let rest := s.dropWhile isDigit
      if digits.isEmpty then throw (missingDigit rest)
      let (value, kept) := appendDigits n digits
      exponentOrEnd negative value ((dropped : Int) - kept) rest
  | 'e' :: s | 'E' :: s => exponentRest negative n dropped s
  | s =>
      if dropped = 0 ∧ !negative then .ok (.integer n, s)
      else if dropped = 0 ∧ 0 < n ∧ n ≤ Nat.pow 2 63 then .ok (.integer (-n), s)
      else do return (← fraction negative n dropped, s)

/-- A number behind its sign. No digit may follow a leading zero. -/
def unsignedNumber (negative : Bool) : Reader Numeral := fun s => do
  let digits := s.takeWhile isDigit
  let rest := s.dropWhile isDigit
  match digits with
  | [] => throw (missingDigit rest)
  | ['0'] => numberRest negative 0 0 rest
  | '0' :: _ => throw (.malformed .invalidNumber)
  | _ =>
      let (value, kept) := appendDigits 0 digits
      numberRest negative value (digits.length - kept) rest

def numeral : Reader Numeral
  | '-' :: s => unsignedNumber true s
  | s => unsignedNumber false s

/-- What is left behind the digits of a number that is not kept; there has to be one. -/
def skipDigits (s : List Char) : Except JsonError (List Char) :=
  match s with
  | [] => .error (.malformed .invalidNumber)
  | c :: _ => if isDigit c then .ok (s.dropWhile isDigit) else .error (.malformed .invalidNumber)

/-- What is left behind the exponent of a number that is not kept, if it has one. -/
def skipExponent : List Char → Except JsonError (List Char)
  | 'e' :: s | 'E' :: s => skipDigits (exponentSign s).2
  | s => .ok s

/-- What is left behind a number that is not kept, from behind its sign. -/
def skipUnsigned (s : List Char) : Except JsonError (List Char) := do
  let rest ← skipDigits s
  if s.head? = some '0' ∧ (s.tail.head?.any isDigit) then throw (.malformed .invalidNumber)
  match rest with
  | '.' :: s => skipExponent (← skipDigits s)
  | s => skipExponent s

/-- What is left behind a number that is not kept. Its size does not matter. -/
def skipNumber : List Char → Except JsonError (List Char)
  | '-' :: s => skipUnsigned s
  | s => skipUnsigned s

end ParameterHints.Json
