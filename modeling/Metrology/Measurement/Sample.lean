import Metrology.Decimal.Numeral
import Metrology.Scalar.Basic
import Metrology.Text.Blank
import Metrology.Text.Split

/-!
# Recorded samples

Samples are entered as text. A pasted text is split into entries at blanks and
commas; an entry counts as a sample if it is a finite number. How precisely a
sample was recorded is told by the digits it was written with, leading zeros
included, and those of a power of ten excluded.

## Main definitions

* `Sample.split`: The entries of a pasted text.
* `Sample.parse?`: The number of an entry.
* `Sample.significantDigits`: How many digits an entry was written with.
* `Sample.minDigits`: The fewest digits among several entries.
-/

namespace Metrology.Sample

/-- The entries of a pasted text. -/
def split (text : String) : List String :=
  ((Text.splitChars (fun c => Text.isBlank c || c = ',') text.toList).filter
    fun piece => !piece.isEmpty).map String.ofList

/-- The number of an entry, if it is a finite one. -/
def parse? {α : Type} [Scalar α] (entry : String) : Option α :=
  match Numeral.read? (Text.trim entry) with
  | some (.finite negative magnitude) =>
    let x : α := Arithmetic.ofSigned negative magnitude
    if Scalar.isFinite x then some x else none
  | _ => none

/-- How many digits an entry was written with, before its power of ten. -/
def significantDigits (entry : String) : Nat :=
  let mantissa := (Text.trimChars entry.toList).takeWhile fun c => c ≠ 'e' ∧ c ≠ 'E'
  (mantissa.filter Char.isDigit).length

/-- The fewest digits among several entries; zero if there are none. -/
def minDigits (entries : List String) : Nat :=
  ((entries.map significantDigits).min?).getD 0

end Metrology.Sample
