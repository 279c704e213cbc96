import Metrology.Scalar.Basic
import Metrology.Unit.Compound

/-!
# Quantities

A quantity is a number with the unit it is expressed in. The number is kept in
coherent SI units, so that quantities in different units of one dimension can
be added and compared without conversion, while the unit decides how the
quantity is shown. A sum is expressed in the unit of its left operand, and
products, quotients and powers in the unit that their operands' units make.

## Main definitions

* `Quantity`: A number of coherent SI units with a unit to express it in.
* `Quantity.inUnit`: A number of given units as a quantity.
* `Quantity.numberIn`: How many of a unit a quantity is.
* `Quantity.add`, `Quantity.mul`, `Quantity.powInt`, `Quantity.powReal`: The
  operations, which fail where units do not allow them.
* `Quantity.text`: A quantity in its own unit.
-/

namespace Metrology

/-- A number of coherent SI units with a unit to express it in. -/
structure Quantity (α : Type) where
  value : α
  unit : CompoundUnit α
  deriving Repr, DecidableEq

namespace Quantity

variable {α : Type}

/-- A plain number. -/
def number (value : α) : Quantity α := ⟨value, .none⟩

/-- Whether a quantity has no unit at all. -/
def isPlain (q : Quantity α) : Bool := q.unit.isNone

def dimension (q : Quantity α) : Except (UnitError α) Dimension := q.unit.dimension

section Operations

variable [Arithmetic α]

/-- A number of given units as a quantity. -/
def inUnit (value : α) (unit : CompoundUnit α) : Quantity α := ⟨unit.toBase value, unit⟩

/-- How many of its own units a quantity is. -/
def valueInUnit (q : Quantity α) : α := q.unit.ofBase q.value

def isZero (q : Quantity α) : Bool := Arithmetic.isZero q.value

/-- Fails unless two units have the same dimension. -/
def checkSameDimension (left right : CompoundUnit α) : Except (UnitError α) PUnit := do
  if (← left.dimension) ≠ (← right.dimension) then .error (.dimensionMismatch left right)

/-- How many of the target unit a quantity is. -/
def numberIn (q : Quantity α) (target : CompoundUnit α) : Except (UnitError α) α := do
  checkSameDimension q.unit target
  return target.ofBase q.value

/-- The number that a quantity without dimension is. -/
def dimensionless (q : Quantity α) : Except (UnitError α) α := q.numberIn .none

/-- A sum, in the unit of the left operand. -/
def add (p q : Quantity α) : Except (UnitError α) (Quantity α) := do
  checkSameDimension p.unit q.unit
  return ⟨p.value + q.value, p.unit⟩

/-- A difference, in the unit of the left operand. -/
def sub (p q : Quantity α) : Except (UnitError α) (Quantity α) := do
  checkSameDimension p.unit q.unit
  return ⟨p.value - q.value, p.unit⟩

def mul (p q : Quantity α) : Except (UnitError α) (Quantity α) := do
  return ⟨p.value * q.value, ← p.unit.mul q.unit⟩

def div (p q : Quantity α) : Except (UnitError α) (Quantity α) := do
  return ⟨p.value / q.value, ← p.unit.div q.unit⟩

/-- A quantity multiplied by a plain number. -/
def scaleBy (q : Quantity α) (factor : α) : Quantity α := ⟨q.value * factor, q.unit⟩

def neg (q : Quantity α) : Quantity α := q.scaleBy (-Arithmetic.one)

def abs (q : Quantity α) : Quantity α := ⟨Arithmetic.abs q.value, q.unit⟩

/-- An integer power. -/
def powInt (q : Quantity α) (n : Int) : Except (UnitError α) (Quantity α) := do
  return ⟨Arithmetic.powInt q.value n, ← q.unit.powInt n⟩

end Operations

section RealPowers

variable [Scalar α]

/-- A power whose exponent is a quantity without dimension. -/
def powReal (q exponent : Quantity α) : Except (UnitError α) (Quantity α) := do
  let e ← exponent.dimensionless
  return ⟨Scalar.pow q.value e, ← q.unit.powReal e⟩

/-- The square root. -/
def sqrt (q : Quantity α) : Except (UnitError α) (Quantity α) := do
  return ⟨Scalar.sqrt q.value, ← q.unit.powReal (Arithmetic.ofDecimal ⟨5, -1⟩)⟩

end RealPowers

/-- A quantity in its own unit. -/
def text [Arithmetic α] [Written α] (q : Quantity α) : String :=
  if q.isPlain then Written.plain q.value
  else Written.plain q.valueInUnit ++ " " ++ q.unit.text

end Quantity

end Metrology
