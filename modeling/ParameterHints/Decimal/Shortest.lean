import ParameterHints.Decimal.Binary64

/-! # The shortest decimal of a binary number

The text of a number has the fewest digits that are read back as the same number, and of those the
nearest to it. For 1, 2, up to 17 digits the two neighbours of the number on the grid of decimals
with so many digits are tried; the first grid with a decimal that reads back wins.
-/

namespace ParameterHints.Decimal

/-- The decimal `digits * 10 ^ exponent`. -/
structure Scientific where
  digits : Nat
  exponent : Int
  deriving DecidableEq

def digitsOf (n : Nat) : List Char := Nat.toDigits 10 n

/-- The power `10 ^ e` as numerator and denominator. -/
def powerOfTen (e : Int) : Nat × Nat := (Nat.pow 10 e.toNat, Nat.pow 10 (-e).toNat)

/-- The exponent of the leading decimal digit of a positive quotient `n / d` above `10 ^ -400`. -/
def leadingExponent (n d : Nat) : Int :=
  ((digitsOf (n * Nat.pow 10 400 / d)).length : Int) - 401

/-- The reals that round to a number, in quarters of the unit of its last bit: their bounds, and
    whether the bounds belong to them. Below a power of two the numbers lie twice as close. -/
def bounds (x : Binary64) : Nat × Nat × Bool :=
  let m := x.significand
  let below := if m = Nat.pow 2 52 ∧ -1074 < x.exponent then 1 else 2
  (4 * m - below, 4 * m + 2, m % 2 == 0)

/-- Whether the decimal `digits * 10 ^ exponent` rounds to a number. -/
def readsBack (x : Binary64) (digits : Nat) (exponent : Int) : Bool :=
  let (low, high, closed) := bounds x
  let (up, down) := powerOfTen exponent
  let (unit, units) := Binary64.powerOfTwo x.exponent
  let value := 4 * digits * up * units
  let low := low * unit * down
  let high := high * unit * down
  if closed then low ≤ value && value ≤ high else low < value && value < high

/-- The decimals next to a quotient on the grid with so many digits, the nearer one first. -/
def neighbours (n d count : Nat) : List Scientific :=
  let exponent := leadingExponent n d - count + 1
  let (up, down) := powerOfTen exponent
  let num := n * down
  let den := d * up
  let floor := num / den
  let twice := 2 * (num % den)
  if twice < den ∨ (twice = den ∧ floor % 2 = 0) then
    [⟨floor, exponent⟩, ⟨floor + 1, exponent⟩]
  else
    [⟨floor + 1, exponent⟩, ⟨floor, exponent⟩]

/-- The shortest decimal that reads back as a number other than zero. -/
def shortest (x : Binary64) : Scientific :=
  let (n, d) := x.quotient
  let candidates := (List.range 17).flatMap fun count => neighbours n d (count + 1)
  (candidates.find? fun c => readsBack x c.digits c.exponent).getD ⟨x.significand, 0⟩

/-- A decimal without zeros at the end of its digits, given as a list. -/
def stripZeros (c : Scientific) : List Char × Int :=
  let reversed := (digitsOf c.digits).reverse
  let zeros := (reversed.takeWhile (· == '0')).length
  ((reversed.drop zeros).reverse, c.exponent + zeros)

/-- Where the point is placed, and where an exponent is written instead. -/
structure Layout where
  /-- The least power of ten of a leading digit that is written without an exponent. -/
  least : Int
  /-- The greatest power of ten of a leading digit that is written without an exponent. -/
  greatest : Int
  /-- Whether an exponent that is not negative has a plus sign. -/
  plus : Bool

namespace Layout

def sign (l : Layout) (exponent : Int) : List Char :=
  if exponent < 0 then ['-'] else if l.plus then ['+'] else []

/-- The text of digits that are to be multiplied by a power of ten. Without an exponent a whole
    number gets a fraction of zero; an exponent stands behind one leading digit. -/
def place (l : Layout) (digits : List Char) (exponent : Int) : List Char :=
  let leading : Int := exponent + digits.length - 1
  if l.least ≤ leading ∧ leading ≤ l.greatest then
    if 0 ≤ exponent then digits ++ List.replicate exponent.toNat '0' ++ ['.', '0']
    else if 0 ≤ leading then
      let whole := leading.toNat + 1
      digits.take whole ++ '.' :: digits.drop whole
    else '0' :: '.' :: List.replicate (-leading - 1).toNat '0' ++ digits
  else
    let fraction := if digits.length = 1 then [] else '.' :: digits.drop 1
    digits.take 1 ++ fraction ++ 'e' :: l.sign leading ++ digitsOf leading.natAbs

end Layout

def text (l : Layout) (negative : Bool) (x : Binary64) : List Char :=
  let sign := if negative then ['-'] else []
  if x.significand = 0 then sign ++ ['0', '.', '0']
  else
    let (digits, exponent) := stripZeros (shortest x)
    sign ++ l.place digits exponent

end ParameterHints.Decimal
