import Metrology.Decimal.Layout
import Metrology.Scalar.Basic

/-!
# Doubles as scalars

The scalars that the program computes with. Powers, roots and the elementary
functions are those of the platform's mathematical library.

## Main definitions

* `Double.toInt`: The integer part of a double, within given bounds.
* `Double.round`: The whole number nearest to a double.
* `Double.integral?`: The integer that a double stands for up to rounding noise.
-/

namespace Metrology

namespace Double

/-- The integer part of a double, moved into the range from `least` to
    `greatest`. An undefined value counts as zero. -/
def toInt (least greatest : Int) (x : Float) : Int :=
  match Binary64.ofFloat x with
  | .nan => 0
  | .infinite negative => if negative then least else greatest
  | .finite negative significand exponent =>
    let magnitude : Int := significand * 2 ^ exponent.toNat / 2 ^ (-exponent).toNat
    max least (min greatest (if negative then -magnitude else magnitude))

/-- The whole number nearest to a double, a half going away from zero. A double
    whose exponent is not negative is whole already. -/
def round (x : Float) : Float :=
  match Binary64.ofFloat x with
  | .finite negative significand exponent =>
    if 0 ≤ exponent then x
    else
      let unit := 2 ^ (-exponent).toNat
      let whole := (Decimal.ofNat ((2 * significand + unit) / (2 * unit))).toFloat
      if negative then -whole else whole
  | _ => x

/-- The nearest integer, if the double lies within a billionth of it. Beyond
    32 bits the answer stays at the largest such integer, which is far out of
    the range of unit powers. -/
def integral? (x : Float) : Option Int :=
  if !x.isFinite || (x - round x).abs > 1e-9 then none
  else some (toInt (-2147483648) 2147483647 (round x))

end Double

instance : Arithmetic Float where
  ofDecimal := Decimal.toFloat
  abs := Float.abs
  equal x y := x == y
  less x y := x < y

instance : Scalar Float where
  pi := 3.141592653589793
  euler := 2.718281828459045
  sqrt := Float.sqrt
  sin := Float.sin
  cos := Float.cos
  tan := Float.tan
  asin := Float.asin
  acos := Float.acos
  atan := Float.atan
  ln := Float.log
  log10 := Float.log10
  exp := Float.exp
  pow := Float.pow
  integral? := Double.integral?
  isFinite := Float.isFinite

instance : Written Float where
  literal := Layout.literal.float
  plain := Layout.plain.float

end Metrology
