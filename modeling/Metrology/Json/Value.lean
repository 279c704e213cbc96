import Metrology.Decimal.Binary64

/-!
# JSON values as read

A JSON text as it was written, before anything is asked of it. Two things in a
text need not have a meaning: an escape may name half of a surrogate pair, which
no text can hold, and a number may be too large. Such a text can still be read
as long as nobody looks at the place, so both are kept apart here.

A number has a scalar value that is not always the nearest double. Only so many
digits are taken in as fit into a word of 64 bits; the rest counts for its size
alone. The digits taken are then multiplied or divided by one power of ten.

## Main definitions

* `Json.Number`, `Json.Value`: Numbers and values as written.
* `Json.Reader`: What reads a text as a value.
* `Json.Number.toFloat?`: The scalar value of a number.
* `Json.Number.toNat?`: The value of a natural number.
* `Json.Value.isSound`: Whether every place in a value has a meaning.
-/

namespace Metrology.Json

/-- A number as written. -/
structure Number where
  negative : Bool
  whole : List Char
  /-- The digits behind the point; none without a point. -/
  fraction : List Char
  /-- The power of ten, if there is one: its sign and its digits. -/
  exponent : Option (Bool × List Char)
  /-- Whether there is a point. -/
  hasPoint : Bool
  deriving DecidableEq, Repr

/-- A value as written. A string or a key is `none` if it names half of a
    surrogate pair. -/
inductive Value where
  | null
  | bool (value : Bool)
  | number (value : Number)
  | string (value : Option String)
  | array (items : List Value)
  | object (members : List (Option String × Value))

/-- What reads a text as a value. -/
class Reader where
  read? : String → Option Value

namespace Number

/-- The largest number of 64 bits. -/
def maxWord : Nat := 2 ^ 64 - 1

/-- Digits taken into a word, and the power of ten of its last digit. -/
structure Taken where
  significand : Nat
  exponent : Int
  /-- Whether a digit has been refused, so that all further ones are. -/
  full : Bool

/-- Takes in one more digit, or counts it if it does not fit. -/
def Taken.addWhole (t : Taken) (digit : Char) : Taken :=
  let next := t.significand * 10 + (digit.toNat - '0'.toNat)
  if t.full || maxWord < next then ⟨t.significand, t.exponent + 1, true⟩
  else ⟨next, t.exponent, false⟩

/-- Takes in one more digit behind the point, or drops it if it does not fit. -/
def Taken.addFraction (t : Taken) (digit : Char) : Taken :=
  let next := t.significand * 10 + (digit.toNat - '0'.toNat)
  if t.full || maxWord < next then ⟨t.significand, t.exponent, true⟩
  else ⟨next, t.exponent - 1, false⟩

/-- The largest power of ten that is multiplied or divided by at once. -/
def maxStep : Nat := 308

/-- A power of ten as a double. -/
def tenTo (n : Nat) : Float := (Decimal.mk 1 n).toFloat

/-- A double times a power of ten; none if the result is too large. Below the
    largest step the double is divided repeatedly, and is zero after three
    divisions at most, so that little fuel is needed. -/
def shift : (fuel : Nat) → Float → Int → Option Float
  | 0, x, _ => some x
  | fuel + 1, x, exponent =>
    if exponent.natAbs ≤ maxStep then
      if 0 ≤ exponent then
        let result := x * tenTo exponent.natAbs
        if result.isInf then none else some result
      else some (x / tenTo exponent.natAbs)
    else if x == 0.0 then some x
    else if 0 ≤ exponent then none
    else shift fuel (x / tenTo maxStep) (exponent + maxStep)

/-- The scalar value of a number; none if it is too large. -/
def toFloat? (n : Number) : Option Float :=
  let whole := n.whole.foldl Taken.addWhole ⟨0, 0, false⟩
  let taken := n.fraction.foldl Taken.addFraction { whole with full := false }
  let signed (x : Float) : Float := if n.negative then -x else x
  let (negativeExponent, digits) := n.exponent.getD (false, [])
  let exponent : Nat := Decimal.digitsValue digits
  -- A power of ten beyond 31 bits decides alone, unless it multiplies zero.
  if 2 ^ 31 ≤ exponent then
    if taken.significand ≠ 0 ∧ !negativeExponent then none else some (signed 0.0)
  else
    let shiftBy := if negativeExponent then taken.exponent - exponent else taken.exponent + exponent
    (shift 5 (Decimal.ofNat taken.significand).toFloat shiftBy).map signed

/-- The value of a number written as a natural one of at most 64 bits. -/
def toNat? (n : Number) : Option Nat :=
  let value := Decimal.digitsValue n.whole
  if n.negative || n.hasPoint || n.exponent.isSome || maxWord < value then none else some value

end Number

namespace Value

/-- How deep values may be nested where all of a value is looked at. -/
def maxDepth : Nat := 127

/-- Whether every place in a value has a meaning, and it is nested no deeper
    than given. -/
def isSoundWithin : (depth : Nat) → Value → Bool
  | _, null => true
  | _, bool _ => true
  | _, number n => n.toFloat?.isSome
  | _, string s => s.isSome
  | 0, array _ => false
  | 0, object _ => false
  | depth + 1, array items => items.all (isSoundWithin depth)
  | depth + 1, object members =>
    members.all fun (key, value) => key.isSome && isSoundWithin depth value

/-- Whether every place in a value has a meaning. -/
def isSound (value : Value) : Bool := value.isSoundWithin maxDepth

end Value

end Metrology.Json
