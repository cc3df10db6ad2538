/-! # Binary floating-point numbers

The finite numbers of the 64-bit binary format, without their sign, and rounding to them. All
arithmetic is exact on natural numbers and rounded once at the end, to the nearest number and, from
halfway, to the one with an even significand.
-/

namespace ParameterHints

/-- The number `significand * 2 ^ exponent`. The significand has at most 53 bits and the exponent
    is at least -1074; it has all 53 bits unless the exponent is the least. -/
structure Binary64 where
  significand : Nat
  exponent : Int
  deriving DecidableEq

namespace Binary64

def zero : Binary64 := ⟨0, -1074⟩

/-- The power `2 ^ e` as numerator and denominator. -/
def powerOfTwo (e : Int) : Nat × Nat := (Nat.pow 2 e.toNat, Nat.pow 2 (-e).toNat)

/-- The quotient rounded to the nearest natural number, from halfway to the even one. -/
def roundQuotient (n d : Nat) : Nat :=
  let floor := n / d
  let twice := 2 * (n % d)
  if twice < d ∨ (twice = d ∧ floor % 2 = 0) then floor else floor + 1

/-- The quotient `n / d` in units of `2 ^ e`, as numerator and denominator. -/
def scaled (n d : Nat) (e : Int) : Nat × Nat :=
  let (up, down) := powerOfTwo e
  (n * down, d * up)

/-- The exponent at which the quotient `n / d` has 53 bits before the point, or the least one. -/
def exponentOf (n d : Nat) : Int :=
  let guess : Int := n.log2 - d.log2 - 52
  let (num, den) := scaled n d guess
  max (-1074) (if num / den < Nat.pow 2 52 then guess - 1 else guess)

/-- The number nearest to the quotient `n / d`, unless that is too large. -/
def ofQuotient (n d : Nat) : Option Binary64 :=
  if n = 0 then some zero
  else
    let e := exponentOf n d
    let (num, den) := scaled n d e
    let m := roundQuotient num den
    let (m, e) := if m = Nat.pow 2 53 then (Nat.pow 2 52, e + 1) else (m, e)
    if 971 < e then none else some ⟨m, e⟩

/-- A number as numerator and denominator. -/
def quotient (x : Binary64) : Nat × Nat :=
  let (up, down) := powerOfTwo x.exponent
  (x.significand * up, down)

/-- The product, unless it is too large. -/
def mul (x y : Binary64) : Option Binary64 :=
  ofQuotient (x.quotient.1 * y.quotient.1) (x.quotient.2 * y.quotient.2)

/-- The quotient by a number other than zero, unless it is too large. -/
def div (x y : Binary64) : Option Binary64 :=
  ofQuotient (x.quotient.1 * y.quotient.2) (x.quotient.2 * y.quotient.1)

end Binary64

end ParameterHints
