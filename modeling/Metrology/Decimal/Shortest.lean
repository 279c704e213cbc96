import Metrology.Decimal.Binary64

/-!
# Shortest decimals

The decimal number with the fewest digits that reads back as a given double;
among those with equally few digits, the one nearest to the double, and of two
equally near ones the larger.

The reals that round to a double form an interval, whose ends belong to it when
the significand is even. If a decimal grid has a point in that interval, then
one of the double's two neighbours on the grid lies in it. So the grids are
tried from coarse to fine, and only two points are tested on each.

## Main definitions

* `Rounds`: The interval of reals that round to a positive double.
* `Rounds.ofBinary`: The interval of `significand * 2 ^ exponent`.
* `Rounds.shortest`: The decimal with the fewest digits inside an interval.
-/

namespace Metrology

/-- The reals that round to a positive double: `value / unit` is the double,
    `low / unit` and `high / unit` bound what rounds to it. -/
structure Rounds where
  unit : Nat
  low : Nat
  value : Nat
  high : Nat
  /-- Whether the bounds themselves round to the double. -/
  closed : Bool

namespace Rounds

/-- The interval of the double `significand * 2 ^ exponent`, in quarters of its
    last binary digit. Below the first significand of a binade doubles lie
    twice as close, so the interval ends earlier there. -/
def ofBinary (significand : Nat) (exponent : Int) : Rounds :=
  let step := 2 ^ exponent.toNat
  let below :=
    if significand = Binary64.leastNormal ∧ Binary64.leastExponent < exponent then 1 else 2
  { unit := 4 * 2 ^ (-exponent).toNat
    low := (4 * significand - below) * step
    value := 4 * significand * step
    high := (4 * significand + 2) * step
    closed := significand % 2 = 0 }

/-- Whether a decimal rounds to the double. -/
def contains (r : Rounds) (d : Decimal) : Bool :=
  let x := d.numerator * r.unit
  let low := r.low * d.denominator
  let high := r.high * d.denominator
  if r.closed then low ≤ x && x ≤ high else low < x && x < high

/-- The better of the double's two neighbours among the multiples of
    `10 ^ exponent`, if either rounds to the double. -/
def onGrid? (r : Rounds) (exponent : Int) : Option Decimal :=
  let num := r.value * 10 ^ (-exponent).toNat
  let den := r.unit * 10 ^ exponent.toNat
  let below : Decimal := ⟨num / den, exponent⟩
  let above : Decimal := ⟨num / den + 1, exponent⟩
  -- The value lies between the two, so the nearer one is told by the remainder.
  match r.contains below, r.contains above with
  | true, true => some (if 2 * (num % den) < den then below else above)
  | true, false => some below
  | false, true => some above
  | false, false => none

/-- The decimal with the fewest digits that rounds to the double. Seventeen
    digits always suffice. -/
def shortest (r : Rounds) : Decimal :=
  let decade := Decimal.decade r.value r.unit
  let last : Decimal := ⟨Decimal.roundAt r.value r.unit (decade - 16), decade - 16⟩
  (((List.range 17).findSome? fun (place : Nat) => r.onGrid? (decade - place)).getD last).trimZeros

end Rounds

end Metrology
