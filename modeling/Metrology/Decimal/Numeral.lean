import Metrology.Decimal.Basic

/-!
# Reading numerals

The text of one number as a user types it: an optional sign, digits with at
most one point among them and at least one digit in all, and an optional power
of ten. The words `inf`, `infinity` and `nan` are numerals too, in any case.
Nothing may stand before or after the numeral.

## Main definitions

* `Numeral`: What a numeral denotes.
* `Numeral.unsigned?`: Reading a numeral of digits without a sign.
* `Numeral.read?`: Reading a whole text as one numeral.
-/

namespace Metrology

/-- What the text of one number denotes. -/
inductive Numeral where
  | nan
  | infinite (negative : Bool)
  | finite (negative : Bool) (magnitude : Decimal)
  deriving DecidableEq, Repr

namespace Numeral

/-- The power of ten behind the mantissa: nothing at all, or `e` with an
    optional sign and at least one digit. -/
def exponent? : List Char → Option Int
  | [] => some 0
  | mark :: rest =>
    if mark = 'e' ∨ mark = 'E' then
      match rest with
      | '-' :: digits => (natural? digits).map fun n => -(n : Int)
      | '+' :: digits => (natural? digits).map fun n => (n : Int)
      | digits => (natural? digits).map fun n => (n : Int)
    else none
where
  natural? (digits : List Char) : Option Nat :=
    if digits ≠ [] ∧ digits.all Char.isDigit then some (Decimal.digitsValue digits) else none

/-- Reads digits with at most one point and an optional power of ten. -/
def unsigned? (cs : List Char) : Option Decimal :=
  let whole := cs.takeWhile Char.isDigit
  let afterWhole := cs.dropWhile Char.isDigit
  let (fraction, tail) := match afterWhole with
    | '.' :: rest => (rest.takeWhile Char.isDigit, rest.dropWhile Char.isDigit)
    | _ => ([], afterWhole)
  if whole = [] ∧ fraction = [] then none
  else (exponent? tail).map (Decimal.ofDigits whole fraction)

/-- Reads the part of a numeral that follows its sign. -/
def magnitude? (negative : Bool) (cs : List Char) : Option Numeral :=
  let word := cs.map Char.toLower
  if word = "inf".toList ∨ word = "infinity".toList then some (.infinite negative)
  else if word = "nan".toList then some .nan
  else (unsigned? cs).map (.finite negative)

/-- Reads the whole text as one numeral. -/
def read? (text : String) : Option Numeral :=
  match text.toList with
  | '-' :: cs => magnitude? true cs
  | '+' :: cs => magnitude? false cs
  | cs => magnitude? false cs

end Numeral

end Metrology
