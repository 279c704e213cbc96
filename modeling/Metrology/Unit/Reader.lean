import Metrology.Decimal.Basic
import Metrology.Text.Blank
import Metrology.Text.Letter
import Metrology.Unit.Catalog
import Metrology.Unit.Compound

/-!
# Reading units

The text of a compound unit, such as `kg*m/s^2`, `g cm / s^2`, `m s^-1` or
`1/s`. Symbols are runs of letters and degree signs, each with an optional
integer power. Blanks, `*` and the middle dot multiply. A slash divides by the
one symbol behind it, and two slashes may not follow each other. A `1` may
stand only where a slash comes next.

## Main definitions

* `UnitReader.writtenPower?`: The power behind a symbol.
* `UnitReader.turned`: The power behind a slash.
* `UnitReader.scan`: The product of the symbols of a text.
* `CompoundUnit.read`: A text read as a unit.
-/

namespace Metrology

namespace UnitReader

variable {α : Type}

def startsSymbol (c : Char) : Bool := Text.isLetter c || c = 'Ω' || c = '°'

def continuesSymbol (c : Char) : Bool := Text.isLetter c || c = '°'

/-- The power written behind a symbol and the number of characters it takes;
    none if the digits are missing or make a number beyond 32 bits. -/
def writtenPower? : List Char → Option (Int × Nat)
  | '^' :: rest =>
    let sign := if rest.head? = some '-' ∨ rest.head? = some '+' then 1 else 0
    let digits := (rest.drop sign).takeWhile Char.isDigit
    let magnitude : Int := Decimal.digitsValue digits
    let power := if rest.head? = some '-' then -magnitude else magnitude
    if digits.isEmpty || !CompoundUnit.inWord power then none
    else some (power, 1 + sign + digits.length)
  | _ => some (1, 0)

/-- The power with its sign turned. Nothing checks that the opposite is a word of 32 bits:
    where it is none, the run stops. -/
def turned (power : Int) : Except (UnitError α) Int :=
  if CompoundUnit.inWord (-power) then .ok (-power) else .error .stopped

/-- The power that a symbol gets: behind a slash the written one is turned. -/
def effectivePower (divide : Bool) (written : Int) : Except (UnitError α) Int :=
  if divide then turned written else .ok written

/-- Merges the symbols of a text into a product. `skip` counts the characters
    that belong to a symbol merged already, and `divide` tells whether a slash
    waits for its symbol. -/
def scan [Scalar α] (source : String) :
    (skip : Nat) → (divide : Bool) → CompoundUnit α → List Char →
      Except (UnitError α) (CompoundUnit α)
  | _, divide, unit, [] => if divide then .error (.invalidSyntax source) else .ok unit
  | skip + 1, divide, unit, _ :: rest => scan source skip divide unit rest
  | 0, divide, unit, c :: rest =>
    if Text.isBlank c || c = '*' || c = '·' then scan source 0 divide unit rest
    else if c = '/' then
      if divide then .error (.invalidSyntax source) else scan source 0 true unit rest
    else if c = '1' ∧ rest.find? (fun c => !Text.isBlank c) = some '/' then
      scan source 0 divide unit rest
    else if startsSymbol c then
      let tail := rest.takeWhile continuesSymbol
      let symbol := String.ofList (c :: tail)
      match Catalog.lookup symbol with
      | none => .error (.unknownUnit symbol)
      | some (dimension, scale) =>
        match writtenPower? (rest.drop tail.length) with
        | none => .error (.invalidSyntax source)
        | some (written, length) => do
          let power ← effectivePower divide written
          let unit ← unit.push ⟨symbol, dimension, scale, power⟩
          scan source (tail.length + length) false unit rest
    else .error (.invalidSyntax source)

end UnitReader

/-- Reads a text as a unit. A text without symbols is the unit of plain
    numbers. -/
def CompoundUnit.read {α : Type} [Scalar α] (source : String) :
    Except (UnitError α) (CompoundUnit α) := do
  (← UnitReader.scan source 0 false .none source.toList).check

end Metrology
