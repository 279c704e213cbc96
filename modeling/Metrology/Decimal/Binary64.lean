import Metrology.Decimal.Numeral

/-!
# Double precision as exact numbers

A finite double is `significand * 2 ^ exponent` with a sign. This file takes a
double apart into that form and finds the double nearest to a quotient, so
that reading and writing numbers can be done in natural numbers.

The encoding of a non-negative double grows with its value: a significand that
rounds up to the next binade carries into the exponent field by plain addition.
`nearestBits` relies on that, and so needs no case for subnormal numbers.

## Main definitions

* `Binary64`: The exact value of a double.
* `Binary64.ofFloat`: Taking a double apart.
* `Binary64.nearestBits`: The encoding of the double nearest to a quotient.
* `Decimal.toFloat`: The double nearest to a decimal number.
* `Numeral.toFloat`: The double nearest to what a numeral denotes.
-/

namespace Metrology

/-- What a double denotes: `significand * 2 ^ exponent` with a sign, or no
    finite number. -/
inductive Binary64 where
  | nan
  | infinite (negative : Bool)
  | finite (negative : Bool) (significand : Nat) (exponent : Int)
  deriving DecidableEq, Repr

namespace Binary64

/-- The exponent of the smallest positive double. -/
def leastExponent : Int := -1074

/-- The least significand of a normal double. -/
def leastNormal : Nat := 2 ^ 52

/-- The encoding of positive infinity. -/
def infinityBits : Nat := 2047 * 2 ^ 52

/-- Takes the encoding of a double apart. -/
def ofBits (bits : Nat) : Binary64 :=
  let negative : Bool := 2 ^ 63 ≤ bits
  let field : Nat := bits / 2 ^ 52 % 2 ^ 11
  let fraction : Nat := bits % 2 ^ 52
  if field = 2047 then
    if fraction = 0 then .infinite negative else .nan
  else if field = 0 then .finite negative fraction leastExponent
  else .finite negative (leastNormal + fraction) ((field : Int) - 1075)

/-- The exact value of a double. -/
def ofFloat (x : Float) : Binary64 := ofBits x.toBits.toNat

/-- The exponent of the first binary digit of a positive quotient. -/
def binade (num den : Nat) : Int :=
  let guess : Int := (num.log2 : Int) - den.log2
  if den * 2 ^ guess.toNat ≤ num * 2 ^ (-guess).toNat then guess else guess - 1

/-- The encoding of the non-negative double nearest to `num / den`, a tie going
    to the even significand and a quotient beyond the largest double to
    infinity. -/
def nearestBits (num den : Nat) : Nat :=
  if num = 0 then 0
  else
    let exponent := max (binade num den - 52) leastExponent
    let significand :=
      Decimal.roundDiv (num * 2 ^ (-exponent).toNat) (den * 2 ^ exponent.toNat)
    min infinityBits ((exponent - leastExponent).toNat * leastNormal + significand)

end Binary64

namespace Decimal

/-- The double nearest to a decimal number. The first comparison keeps a huge
    power of ten from being computed: the value is then far above the largest
    double, or far below the smallest. -/
def toFloat (d : Decimal) : Float :=
  let top : Int := digitCount d.coefficient + d.exponent
  if d.coefficient = 0 ∨ top < -400 then 0.0
  else if 400 < top then Float.ofBits (UInt64.ofNat Binary64.infinityBits)
  else Float.ofBits (UInt64.ofNat (Binary64.nearestBits d.numerator d.denominator))

end Decimal

namespace Numeral

/-- The double nearest to what a numeral denotes. -/
def toFloat : Numeral → Float
  | .nan => 0.0 / 0.0
  | .infinite negative => if negative then -1.0 / 0.0 else 1.0 / 0.0
  | .finite negative magnitude => if negative then -magnitude.toFloat else magnitude.toFloat

end Numeral

end Metrology
