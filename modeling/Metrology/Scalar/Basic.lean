import Metrology.Decimal.Basic

/-!
# Scalars

Everything that is computed here is computed on scalars: doubles when the
program runs, and exact numbers when a law of propagation is read as a law about
numbers. Quantities, formulas and documents therefore take the type of their
scalars as a parameter, and this file says which operations they may use.

The classes hold operations and no laws. A law of real numbers does not hold of
doubles, so a statement that needs one names a scalar type that has it.

## Main definitions

* `Arithmetic`: Literals, the four operations, and comparison.
* `Arithmetic.lessEq`: Comparison that is false when either side is undefined.
* `Arithmetic.powInt`: Integer power by repeated squaring.
* `Scalar`: Arithmetic with the elementary functions.
* `Written`: Scalars that have a text.
-/

namespace Metrology

/-- Scalars that can be added, multiplied and compared. The comparisons are
    those of the program: on doubles an undefined value equals nothing, and the
    two zeros are equal. -/
class Arithmetic (α : Type) extends Add α, Sub α, Mul α, Div α, Neg α where
  /-- The scalar nearest to a decimal number. -/
  ofDecimal : Decimal → α
  abs : α → α
  equal : α → α → Bool
  less : α → α → Bool

namespace Arithmetic

variable {α : Type} [Arithmetic α]

/-- The scalar of a whole number. -/
def ofNat (n : Nat) : α := ofDecimal (Decimal.ofNat n)

/-- The scalar of an integer. -/
def ofInt (n : Int) : α := if n < 0 then -ofNat n.natAbs else ofNat n.natAbs

/-- The scalar of a decimal number with a sign. -/
def ofSigned (negative : Bool) (magnitude : Decimal) : α :=
  if negative then -ofDecimal magnitude else ofDecimal magnitude

def zero : α := ofNat 0

def one : α := ofNat 1

/-- Whether `x` is at most `y`; false when either is undefined. -/
def lessEq (x y : α) : Bool := less x y || equal x y

def isZero (x : α) : Bool := equal x zero

/-- Whether `x` is no number at all, which shows in that it differs from
    itself. -/
def isUndefined (x : α) : Bool := !equal x x

/-- One step of repeated squaring for each binary digit of `n`, from the last
    one up. The fuel counts the digits of `n`. -/
def squareUp : Nat → α → α → Nat → α
  | 0, result, _, _ => result
  | fuel + 1, result, base, n =>
    let result := if n % 2 = 1 then result * base else result
    if n / 2 = 0 then result else squareUp fuel result (base * base) (n / 2)

/-- A power with a natural exponent. -/
def powNat (x : α) (n : Nat) : α := squareUp (n.log2 + 1) one x n

/-- A power with an integer exponent; a negative one divides one by the power. -/
def powInt (x : α) (n : Int) : α :=
  if n < 0 then one / powNat x n.natAbs else powNat x n.natAbs

end Arithmetic

/-- Scalars with the elementary functions that formulas may call. -/
class Scalar (α : Type) extends Arithmetic α where
  pi : α
  euler : α
  sqrt : α → α
  sin : α → α
  cos : α → α
  tan : α → α
  asin : α → α
  acos : α → α
  atan : α → α
  ln : α → α
  log10 : α → α
  exp : α → α
  pow : α → α → α
  /-- The integer that a scalar stands for, if it is one. -/
  integral? : α → Option Int
  isFinite : α → Bool

/-- Scalars that have a text. -/
class Written (α : Type) where
  /-- The text of a literal in a formula. -/
  literal : α → String
  /-- The text of a number in a message. -/
  plain : α → String

end Metrology
