import Metrology.Decimal.Layout
import Metrology.Scalar.Double

/-!
# Notation of results

How numbers are written in a report. A number is rounded to significant digits,
exactly and with ties to even, and written positionally unless it is very small
or has more whole digits than it may show. A mean with its uncertainty has a
concise form: `1.235(13)` means that the last two digits of the mean are
uncertain by thirteen.

All of this is done on the exact value of a scalar. The sizes of numbers are
compared by their orders of magnitude, which the scalar type gives.

## Main definitions

* `Exact`: What a scalar denotes.
* `Displayable`: Scalars that can be written in reports.
* `Notation.toFixed`: A number with a given count of decimals.
* `Notation.toPrecision`: A number with a given count of significant digits.
* `Notation.concise`: A mean with its uncertainty.
* `Notation.relative`: An uncertainty as a percentage of a mean.
-/

namespace Metrology

/-- What a scalar denotes: a quotient with a sign, or no finite number. -/
inductive Exact where
  | nan
  | infinite (negative : Bool)
  | finite (negative : Bool) (numerator denominator : Nat)
  deriving DecidableEq, Repr

/-- Scalars that can be written in reports. -/
class Displayable (α : Type) where
  exact : α → Exact
  /-- The exponent of the first digit; zero for zero. -/
  orderOfMagnitude : α → Int
  /-- The least integer that is not smaller. -/
  ceiling : α → Int

/-- What a double denotes. -/
def Exact.ofFloat (x : Float) : Exact :=
  match Binary64.ofFloat x with
  | .nan => .nan
  | .infinite negative => .infinite negative
  | .finite negative significand exponent =>
    .finite negative (significand * 2 ^ exponent.toNat) (2 ^ (-exponent).toNat)

/-- The order of magnitude of a double is found by a logarithm, and an integer
    outside 64 bits is moved to the nearest inside. -/
instance : Displayable Float where
  exact := Exact.ofFloat
  orderOfMagnitude x :=
    if x == 0.0 then 0 else Double.toInt (-2 ^ 31) (2 ^ 31 - 1) x.abs.log10.floor
  ceiling x := Double.toInt (-2 ^ 63) (2 ^ 63 - 1) x.ceil

namespace Notation

/-- A minus sign for negative numbers, zero included. -/
def signText (negative : Bool) : String := if negative then "-" else ""

/-- Digits with a point before the last `decimals` of them, and with zeros in
    front as far as they are needed. -/
def pointText (digits : List Char) (decimals : Nat) : String :=
  let padded := List.replicate (decimals + 1 - digits.length) '0' ++ digits
  let whole := padded.take (padded.length - decimals)
  let fraction := padded.drop (padded.length - decimals)
  String.ofList (whole ++ if decimals = 0 then [] else '.' :: fraction)

/-- A number rounded to a count of decimals, ties to even. -/
def toFixed (decimals : Nat) : Exact → String
  | .nan => "NaN"
  | .infinite negative => signText negative ++ "inf"
  | .finite negative num den =>
    let coefficient := Decimal.roundAt num den (-(decimals : Int))
    signText negative ++ pointText (Nat.toDigits 10 coefficient) decimals

/-- A positive quotient rounded to significant digits, ties to even: the digits
    as one number, and the exponent of the first of them. -/
def significant (num den digits : Nat) : Nat × Int :=
  let decade := Decimal.decade num den
  let coefficient := Decimal.roundAt num den (decade - digits + 1)
  if coefficient = 10 ^ digits then (10 ^ (digits - 1), decade + 1) else (coefficient, decade)

/-- Digits with a point behind the first of them, and the exponent of the first
    one with its sign. -/
def exponentText (coefficient : Nat) (exponent : Int) : String :=
  let digits := Nat.toDigits 10 coefficient
  pointText digits (digits.length - 1) ++ (if exponent < 0 then "e-" else "e+") ++
    toString exponent.natAbs

/-- A number rounded to significant digits, from 1 to 100 of them. Exponents
    below -6, and those that leave no room for a point, are written out. -/
def toPrecision (precision : Nat) (x : Exact) : String :=
  let digits := max 1 (min precision 100)
  match x with
  | .nan => "NaN"
  | .infinite negative => signText negative ++ "Infinity"
  | .finite negative num den =>
    if num = 0 then pointText ['0'] (digits - 1)
    else
      let (coefficient, exponent) := significant num den digits
      if exponent < -6 ∨ (digits : Int) ≤ exponent then
        signText negative ++ exponentText coefficient exponent
      else toFixed (digits - 1 - exponent).toNat x

/-- Takes the zeros at the end of a decimal fraction away, and the point if
    nothing is left behind it. -/
def trimFraction (text : String) : String :=
  if text.toList.contains '.' then
    let reversed := text.toList.reverse.dropWhile (· = '0')
    String.ofList (reversed.dropWhile (· = '.')).reverse
  else text

/-- An integer in words of 32 bits. -/
def word (n : Int) : Int := Int.bmod n (2 ^ 32)

variable {α : Type} [Arithmetic α] [Displayable α]

open Arithmetic (zero one ofNat ofDecimal)

def isFinite (x : α) : Bool :=
  match Displayable.exact x with
  | .finite .. => true
  | _ => false

/-- Ten to an integer power. -/
def tenTo (n : Int) : α := Arithmetic.powInt (ofNat 10) n

/-- The uncertainty in units of the last digit of the mean, rounded up but for
    the noise that the scaling brings in. -/
def uncertainDigits (uncertainty : α) (decimals : Int) : Int :=
  Displayable.ceiling (uncertainty * tenTo decimals * (one - ofDecimal ⟨1, -12⟩))

/-- A mean with `digits` digits of its uncertainty. A mean of a thousand or
    more, or below a hundredth, is written with a power of ten. The mean stands
    alone when the uncertainty is not positive or is of a higher order. -/
def concise (mean uncertainty : α) (digits : Nat) : String :=
  let alone := toPrecision digits (Displayable.exact mean)
  if !(isFinite uncertainty && Arithmetic.less zero uncertainty) || !isFinite mean then alone
  else
    let meanOrder := Displayable.orderOfMagnitude mean
    let order := Displayable.orderOfMagnitude uncertainty
    if meanOrder < order then alone
    else
      -- With this many decimals the uncertainty shows the wanted digits.
      let decimals := word (word (max digits 1) - order - 1)
      let uncertain := "(" ++ toString (uncertainDigits uncertainty decimals) ++ ")"
      if 3 ≤ meanOrder ∨ meanOrder ≤ -3 then
        -- Dividing by the power of ten moves the point that many places.
        let scaled := toFixed (word (meanOrder + decimals)).toNat
          (Displayable.exact (mean / tenTo meanOrder))
        trimFraction scaled ++ uncertain ++ "e" ++ toString meanOrder
      else toFixed decimals.toNat (Displayable.exact mean) ++ uncertain

/-- An uncertainty as a percentage of the size of the mean; none for a mean that
    is zero or not finite. -/
def relative (uncertainty mean : α) (precision : Nat) : Option String :=
  if Arithmetic.isZero mean || !isFinite mean then none
  else
    let percentage := uncertainty / Arithmetic.abs mean * ofNat 100
    some (toPrecision precision (Displayable.exact percentage) ++ "%")

end Notation

end Metrology
