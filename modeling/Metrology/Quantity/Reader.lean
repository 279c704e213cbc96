import Metrology.Decimal.Numeral
import Metrology.Quantity.Basic
import Metrology.Unit.Reader

/-!
# Reading quantities

The text of a quantity, such as `0.5`, `0.5 mm` or `2e-3kg`: a number, which is
required, and a unit. The number is the longest beginning of the text that is
one; a letter `e` belongs to it only when digits follow.

## Main definitions

* `QuantityReader.numberLength`: How many characters the number takes.
* `Quantity.read`: A text read as a quantity.
* `Quantity.withUnit`: A number with the unit that a text names.
* `Quantity.numberInText`: How many of the unit that a text names.
-/

namespace Metrology

namespace QuantityReader

/-- How many characters a power of ten takes behind `length` characters of a
    number, given the text behind them. -/
def exponentEnd (length : Nat) : List Char → Nat
  | [] => length
  | mark :: rest =>
    if mark ≠ 'e' ∧ mark ≠ 'E' then length
    else
      match rest with
      | [] => length
      | c :: digits =>
        if c = '-' ∨ c = '+' then
          if (digits.takeWhile Char.isDigit).isEmpty then length
          else length + 2 + (digits.takeWhile Char.isDigit).length
        else if c.isDigit then length + 2 + (digits.takeWhile Char.isDigit).length
        else length

/-- Counts the characters of digits with at most one point. The flags tell
    whether the point and whether a digit has been met; without a digit there is
    no number. -/
def mantissaEnd : (pointMet digitMet : Bool) → (length : Nat) → List Char → Nat
  | _, digitMet, length, [] => if digitMet then length else 0
  | pointMet, digitMet, length, c :: rest =>
    if c.isDigit then mantissaEnd pointMet true (length + 1) rest
    else if c = '.' ∧ !pointMet then mantissaEnd true digitMet (length + 1) rest
    else if digitMet then exponentEnd length (c :: rest)
    else 0

/-- How many characters the number at the start of a text takes; zero if there
    is none. -/
def numberLength : List Char → Nat
  | [] => 0
  | c :: rest =>
    if c = '-' ∨ c = '+' then mantissaEnd false false 1 rest
    else mantissaEnd false false 0 (c :: rest)

end QuantityReader

namespace Quantity

variable {α : Type} [Scalar α]

/-- A number with the unit that a text names. -/
def withUnit (value : α) (unit : String) : Except (UnitError α) (Quantity α) := do
  return inUnit value (← CompoundUnit.read unit)

/-- How many of the unit that a text names a quantity is. -/
def numberInText (q : Quantity α) (target : String) : Except (UnitError α) α := do
  q.numberIn (← CompoundUnit.read target)

/-- Reads a text as a quantity. Blanks around it do not count. -/
def read (source : String) : Except (UnitError α) (Quantity α) := do
  let cs := Text.trimChars source.toList
  let length := QuantityReader.numberLength cs
  match Numeral.read? (String.ofList (cs.take length)) with
  | some (.finite negative magnitude) =>
    withUnit (Arithmetic.ofSigned negative magnitude) (Text.trim (String.ofList (cs.drop length)))
  | _ => .error (.invalidSyntax (String.ofList cs))

end Quantity

end Metrology
