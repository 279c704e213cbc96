import Metrology.Expr.Evaluation
import Metrology.Quantity.Reader
import Metrology.Scalar.Double

/-!
# Settings

What holds for a whole session: the local gravitational acceleration, which
formulas find under the symbol `g`, and which kinds of uncertainty take part in
results.

## Main definitions

* `Settings`: The local gravitational acceleration.
* `Settings.constants`: The constants that the settings give to formulas.
* `Settings.gravityAtLatitude`: The acceleration at a geodetic latitude.
* `UncertaintyTypes`: Which kinds of uncertainty take part.
-/

namespace Metrology

/-- The local gravitational acceleration in metres per second squared. -/
structure Settings (α : Type) where
  gravity : α
  deriving Repr, DecidableEq

namespace Settings

/-- The acceleration where nothing else is said. -/
def standard {α : Type} [Scalar α] : Settings α := ⟨Arithmetic.ofDecimal ⟨98, -1⟩⟩

/-- The symbol of the gravitational acceleration. -/
def gravitySymbol : String := "g"

/-- The constants that the settings give to formulas. -/
def constants {α : Type} [Scalar α] (settings : Settings α) : Bindings α :=
  match Quantity.withUnit settings.gravity "m/s^2" with
  | .ok g => Bindings.empty.bind gravitySymbol g
  | .error _ => Bindings.empty

/-- The acceleration at a latitude in degrees by the international gravity
    formula, rounded to five decimals. -/
def gravityAtLatitude (latitude : Float) : Float :=
  let s := Float.sin (latitude * (Scalar.pi / 180.0))
  let g := 9.7803185 *
    (1.0 + 0.005278895 * Arithmetic.powInt s 2 + 0.000023462 * Arithmetic.powInt s 4)
  (g * 1e5).round / 1e5

end Settings

/-- Which kinds of uncertainty take part in results. -/
structure UncertaintyTypes where
  typeA : Bool := true
  typeB : Bool := true
  deriving Repr, DecidableEq

end Metrology
