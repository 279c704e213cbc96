import Metrology.Scalar.Basic
import Metrology.Unit.Dimension

/-!
# The catalog of units

The unit symbols that are known, with the dimension of each and its scale to
the coherent SI unit of that dimension, and the prefixes that some of them
take. A symbol of the catalog always means the unit itself; only then is it
read as a prefix with a unit behind it, so `cd` is the candela and `min` the
minute.

## Main definitions

* `Catalog.Entry`: A unit symbol with its meaning.
* `Catalog.entries`: The known units.
* `Catalog.prefixes`: The known prefixes.
* `Catalog.lookup`: The meaning of a written symbol.
-/

namespace Metrology.Catalog

/-- A unit symbol with its meaning. -/
structure Entry (α : Type) where
  symbol : String
  dimension : Dimension
  scale : α
  prefixable : Bool

variable {α : Type}

open Arithmetic (ofDecimal ofNat one)

/-- The known units. -/
def entries [Scalar α] : List (Entry α) := [
  ⟨"m", { length := 1 }, one, true⟩,
  ⟨"g", { mass := 1 }, ofDecimal ⟨1, -3⟩, true⟩,
  ⟨"s", { time := 1 }, one, true⟩,
  ⟨"A", { current := 1 }, one, true⟩,
  ⟨"K", { temperature := 1 }, one, true⟩,
  ⟨"mol", { amount := 1 }, one, true⟩,
  ⟨"cd", { luminosity := 1 }, one, true⟩,
  ⟨"N", { mass := 1, length := 1, time := -2 }, one, true⟩,
  ⟨"J", { mass := 1, length := 2, time := -2 }, one, true⟩,
  ⟨"W", { mass := 1, length := 2, time := -3 }, one, true⟩,
  ⟨"Pa", { mass := 1, length := -1, time := -2 }, one, true⟩,
  ⟨"Hz", { time := -1 }, one, true⟩,
  ⟨"C", { time := 1, current := 1 }, one, true⟩,
  ⟨"V", { mass := 1, length := 2, time := -3, current := -1 }, one, true⟩,
  ⟨"Ω", { mass := 1, length := 2, time := -3, current := -2 }, one, true⟩,
  ⟨"S", { mass := -1, length := -2, time := 3, current := 2 }, one, true⟩,
  ⟨"F", { mass := -1, length := -2, time := 4, current := 2 }, one, true⟩,
  ⟨"T", { mass := 1, time := -2, current := -1 }, one, true⟩,
  ⟨"Wb", { mass := 1, length := 2, time := -2, current := -1 }, one, true⟩,
  ⟨"H", { mass := 1, length := 2, time := -2, current := -2 }, one, true⟩,
  ⟨"L", { length := 3 }, ofDecimal ⟨1, -3⟩, true⟩,
  ⟨"min", { time := 1 }, ofNat 60, false⟩,
  ⟨"h", { time := 1 }, ofNat 3600, false⟩,
  ⟨"rad", {}, one, true⟩,
  ⟨"deg", {}, Scalar.pi / ofNat 180, false⟩,
  ⟨"in", { length := 1 }, ofDecimal ⟨254, -4⟩, false⟩,
  ⟨"ft", { length := 1 }, ofDecimal ⟨3048, -4⟩, false⟩,
  ⟨"bar", { mass := 1, length := -1, time := -2 }, ofDecimal ⟨1, 5⟩, true⟩,
  ⟨"eV", { mass := 1, length := 2, time := -2 }, ofDecimal ⟨1602176634, -28⟩, true⟩]

/-- Other spellings of unit symbols. -/
def aliases : List (String × String) := [("ohm", "Ω"), ("°", "deg"), ("l", "L")]

/-- The known prefixes with their factors as powers of ten. The only one of two
    letters comes first, so that it is tried before its first letter. -/
def prefixes : List (String × Int) := [
  ("da", 1), ("p", -12), ("n", -9), ("u", -6), ("μ", -6), ("µ", -6), ("m", -3), ("c", -2),
  ("d", -1), ("h", 2), ("k", 3), ("M", 6), ("G", 9)]

/-- The unit of a symbol or of another spelling of it. -/
def entry? [Scalar α] (symbol : String) : Option (Entry α) :=
  let plain := (aliases.lookup symbol).getD symbol
  entries.find? fun entry => entry.symbol = plain

/-- The meaning of a symbol as one prefix with a unit behind it. -/
def prefixed? [Scalar α] (symbol unitPrefix : String) (power : Int) :
    Option (Dimension × α) := do
  let rest ← unitPrefix.toList.isPrefixOf? symbol.toList
  let entry ← entry? (α := α) (String.ofList rest)
  guard entry.prefixable
  return (entry.dimension, entry.scale * ofDecimal ⟨1, power⟩)

/-- The dimension and the scale of a written unit symbol. -/
def lookup [Scalar α] (symbol : String) : Option (Dimension × α) :=
  match entry? symbol with
  | some entry => some (entry.dimension, entry.scale)
  | none => prefixes.findSome? fun (unitPrefix, power) => prefixed? symbol unitPrefix power

end Metrology.Catalog
