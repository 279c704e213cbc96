import Metrology.Scalar.Basic
import Metrology.Unit.Dimension

/-!
# Compound units

A compound unit is a product of unit symbols raised to integer powers, such as
`kg m / s^2`. Factors are kept in the order in which they were first met and
under the symbol they were written with. A symbol stands in the product once: a
second occurrence is merged into the first, and a factor whose power becomes
zero is dropped. The empty product is the unit of plain numbers.

Powers are kept small. A factor whose power would leave the range from -127 to
127 is refused, and so is a unit whose dimension would leave eight bits.

## Main definitions

* `UnitFactor`, `CompoundUnit`: Products of unit symbols.
* `UnitError`: Why a text or an operation gives no unit.
* `CompoundUnit.push`: Merging a factor into a product.
* `CompoundUnit.dimension`, `CompoundUnit.scale`: What a unit measures, and in
  how many coherent SI units.
* `CompoundUnit.mul`, `CompoundUnit.div`, `CompoundUnit.powInt`,
  `CompoundUnit.powReal`: Products, quotients and powers.
* `CompoundUnit.si`: The coherent SI unit of a dimension.
* `CompoundUnit.text`: The text of a unit.
-/

namespace Metrology

/-- A unit symbol raised to a power. -/
structure UnitFactor (α : Type) where
  /-- The symbol as written, with its prefix. -/
  symbol : String
  dimension : Dimension
  /-- How many coherent SI units one unit of the symbol is. -/
  scale : α
  power : Int
  deriving Repr, DecidableEq

/-- A product of unit symbols raised to powers. -/
structure CompoundUnit (α : Type) where
  factors : List (UnitFactor α)
  deriving Repr, DecidableEq

/-- A power that leaves the range. -/
inductive PowerOverflow (α : Type) where
  /-- A factor merged with an earlier one of the same symbol. -/
  | merged (symbol : String) (earlier later : Int)
  | single (symbol : String) (power : Int)
  /-- A factor's power multiplied beyond 32 bits. -/
  | multiplied (symbol : String) (power exponent : Int)
  | dimension (overflow : DimensionOverflow)
  /-- A real power whose coherent SI unit is out of range. -/
  | real (unit : CompoundUnit α) (exponent : α)

/-- Why a text or an operation gives no unit. -/
inductive UnitError (α : Type) where
  | unknownUnit (symbol : String)
  | invalidSyntax (source : String)
  | dimensionMismatch (left right : CompoundUnit α)
  | fractionalPower (unit : CompoundUnit α) (exponent : α)
  | powerOverflow (overflow : PowerOverflow α)
  /-- Not a report: a power without an opposite in 32 bits was turned, and the run ends there. -/
  | stopped

namespace CompoundUnit

variable {α : Type}

/-- The unit of plain numbers. -/
def none : CompoundUnit α := ⟨[]⟩

def isNone (unit : CompoundUnit α) : Bool := unit.factors.isEmpty

/-- The largest magnitude of a factor's power. -/
def maxPower : Int := 127

def inRange (power : Int) : Bool := -maxPower ≤ power && power ≤ maxPower

/-- Whether an integer fits into 32 bits. -/
def inWord (n : Int) : Bool := -2 ^ 31 ≤ n && n < 2 ^ 31

/-- Adds to the power of the first factor with the given symbol. -/
def addPower (symbol : String) (power : Int) : List (UnitFactor α) → List (UnitFactor α)
  | [] => []
  | factor :: rest =>
    if factor.symbol = symbol then { factor with power := factor.power + power } :: rest
    else factor :: addPower symbol power rest

/-- The unit of a list of factors, without those of power zero. -/
def ofFactors (factors : List (UnitFactor α)) : CompoundUnit α :=
  ⟨factors.filter fun factor => factor.power ≠ 0⟩

/-- Merges a factor into a product. -/
def push (unit : CompoundUnit α) (factor : UnitFactor α) :
    Except (UnitError α) (CompoundUnit α) :=
  match unit.factors.find? fun earlier => earlier.symbol = factor.symbol with
  | some earlier =>
    if inRange (earlier.power + factor.power) then
      .ok (ofFactors (addPower factor.symbol factor.power unit.factors))
    else .error (.powerOverflow (.merged factor.symbol earlier.power factor.power))
  | .none =>
    if inRange factor.power then .ok (ofFactors (unit.factors ++ [factor]))
    else .error (.powerOverflow (.single factor.symbol factor.power))

/-- Merges several factors into a product, one after the other. -/
def pushAll (unit : CompoundUnit α) (factors : List (UnitFactor α)) :
    Except (UnitError α) (CompoundUnit α) :=
  factors.foldlM push unit

/-- Reports a dimension out of range as a failure of the unit. -/
def liftDimension {β : Type} : Except DimensionOverflow β → Except (UnitError α) β
  | .ok value => .ok value
  | .error overflow => .error (.powerOverflow (.dimension overflow))

/-- The dimension of a unit. -/
def dimension (unit : CompoundUnit α) : Except (UnitError α) Dimension :=
  liftDimension (unit.factors.foldlM (fun product factor => do
    product.mul (← factor.dimension.pow factor.power)) Dimension.one)

/-- Passes a unit on if its dimension is in range. -/
def check (unit : CompoundUnit α) : Except (UnitError α) (CompoundUnit α) := do
  let _ ← unit.dimension
  return unit

/-- How many coherent SI units a unit is. -/
def scale [Arithmetic α] (unit : CompoundUnit α) : α :=
  unit.factors.foldl (fun product factor =>
    product * Arithmetic.powInt factor.scale factor.power) Arithmetic.one

/-- A number of units as a number of coherent SI units. -/
def toBase [Arithmetic α] (unit : CompoundUnit α) (value : α) : α := value * unit.scale

/-- A number of coherent SI units as a number of units. -/
def ofBase [Arithmetic α] (unit : CompoundUnit α) (value : α) : α := value / unit.scale

def mul (unit other : CompoundUnit α) : Except (UnitError α) (CompoundUnit α) := do
  (← unit.pushAll other.factors).check

def div (unit other : CompoundUnit α) : Except (UnitError α) (CompoundUnit α) := do
  (← unit.pushAll (other.factors.map fun factor => { factor with power := -factor.power })).check

/-- The factor with its power multiplied. A product beyond 32 bits is a failure
    of its own. -/
def multiplyPower (n : Int) (factor : UnitFactor α) : Except (UnitError α) (UnitFactor α) :=
  if inWord (factor.power * n) then .ok { factor with power := factor.power * n }
  else .error (.powerOverflow (.multiplied factor.symbol factor.power n))

/-- An integer power. -/
def powInt (unit : CompoundUnit α) (n : Int) : Except (UnitError α) (CompoundUnit α) := do
  let result ← unit.factors.foldlM (fun product factor => do
    product.push (← multiplyPower n factor)) none
  result.check

/-- The coherent SI unit of a dimension. -/
def si [Arithmetic α] (dimension : Dimension) : CompoundUnit α :=
  let base (symbol : String) (base : Dimension) (power : Int) : UnitFactor α :=
    ⟨symbol, base, Arithmetic.one, power⟩
  ofFactors [
    base "kg" { mass := 1 } dimension.mass,
    base "m" { length := 1 } dimension.length,
    base "s" { time := 1 } dimension.time,
    base "A" { current := 1 } dimension.current,
    base "K" { temperature := 1 } dimension.temperature,
    base "mol" { amount := 1 } dimension.amount,
    base "cd" { luminosity := 1 } dimension.luminosity]

section RealPowers

variable [Scalar α]

/-- The integer that a power becomes when it is multiplied by a scalar, if it
    becomes one. -/
def scaledPower? (power : Int) (exponent : α) : Option Int :=
  Scalar.integral? (Arithmetic.ofInt power * exponent)

/-- Raises the factors one by one and merges them into a product; no unit if
    some power becomes fractional. -/
def powFactors? (exponent : α) :
    CompoundUnit α → List (UnitFactor α) → Except (UnitError α) (Option (CompoundUnit α))
  | product, [] => .ok (some product)
  | product, factor :: rest =>
    match scaledPower? factor.power exponent with
    | .none => .ok .none
    | some power => do powFactors? exponent (← product.push { factor with power }) rest

/-- The exponents of a dimension raised to a real power; none if one of them
    becomes fractional, a failure if one leaves eight bits before that. -/
def scaledExponents? (overflow : UnitError α) (exponent : α) :
    List Int → Except (UnitError α) (Option (List Int))
  | [] => .ok (some [])
  | power :: rest =>
    match scaledPower? power exponent with
    | .none => .ok .none
    | some scaled =>
      if Dimension.inRange scaled then do
        return (← scaledExponents? overflow exponent rest).map (scaled :: ·)
      else .error overflow

/-- The dimension with the given exponents, if there are seven. -/
def dimensionOf? : List Int → Option Dimension
  | [mass, length, time, current, temperature, amount, luminosity] =>
    some { mass, length, time, current, temperature, amount, luminosity }
  | _ => .none

/-- A real power. The factors keep their symbols when every power becomes an
    integer. Otherwise the result is a coherent SI unit, which exists whenever
    the dimension becomes integral. -/
def powReal (unit : CompoundUnit α) (exponent : α) : Except (UnitError α) (CompoundUnit α) := do
  if let some product ← powFactors? exponent none unit.factors then
    return ← product.check
  let overflow : UnitError α := .powerOverflow (.real unit exponent)
  let exponents ← scaledExponents? overflow exponent (← unit.dimension).exponents
  match exponents.bind dimensionOf? with
  | some dimension => return si dimension
  | .none => .error (.fractionalPower unit exponent)

end RealPowers

/-- A symbol with its power, which is left out when it is one. -/
def factorText (symbol : String) (power : Int) : String :=
  if power = 1 then symbol else symbol ++ "^" ++ toString power

/-- The text of a unit: factors with positive powers, then a slash and the
    others with their powers turned. Without positive powers there is no
    slash. -/
def text (unit : CompoundUnit α) : String :=
  let above := unit.factors.filter fun factor => 0 < factor.power
  let below := unit.factors.filter fun factor => factor.power < 0
  let join (parts : List String) : String := " ".intercalate parts
  if above.isEmpty then join (below.map fun factor => factorText factor.symbol factor.power)
  else
    join (above.map fun factor => factorText factor.symbol factor.power) ++
      if below.isEmpty then ""
      else " / " ++ join (below.map fun factor => factorText factor.symbol (-factor.power))

/-- A unit as messages name it. -/
def describe (unit : CompoundUnit α) : String :=
  if unit.isNone then "a dimensionless value" else unit.text

end CompoundUnit

section Messages

variable {α : Type} [Written α]

/-- The power that left the range, as messages show it. -/
def PowerOverflow.describe : PowerOverflow α → String
  | merged symbol earlier later =>
    symbol ++ "^(" ++ toString earlier ++ " + " ++ toString later ++ ")"
  | single symbol power => symbol ++ "^" ++ toString power
  | multiplied symbol power exponent =>
    symbol ++ "^(" ++ toString power ++ " * " ++ toString exponent ++ ")"
  | dimension overflow => overflow.describe
  | real unit exponent => "(" ++ unit.text ++ ")^" ++ Written.plain exponent

/-- The message of a unit error. -/
def UnitError.message : UnitError α → String
  | unknownUnit symbol => "Unknown unit: " ++ symbol
  | invalidSyntax source => "Invalid unit syntax: " ++ source
  | dimensionMismatch left right =>
    "Units do not match: cannot combine " ++ left.describe ++ " with " ++ right.describe
  | fractionalPower unit exponent =>
    "Unit power is not an integer: (" ++ unit.text ++ ")^" ++ Written.plain exponent
  | powerOverflow overflow => "Unit power out of range: " ++ overflow.describe
  | stopped => "attempt to negate with overflow"

end Messages

end Metrology
