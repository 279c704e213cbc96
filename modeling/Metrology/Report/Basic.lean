import Metrology.Document
import Metrology.Propagation.Propagator
import Metrology.Report.Notation

/-!
# Reports

The result of an output: the mean and the uncertainty of the measurement it
names, as numbers of a display unit, and the texts that show them.

## Main definitions

* `OutputReport`: The result of an output.
* `Output.evaluate`: Finding the result.
* `OutputReport.meanText`, `OutputReport.uncertaintyText`,
  `OutputReport.conciseText`, `OutputReport.relativeText`: The texts.
-/

namespace Metrology

/-- The result of an output, in numbers of its display unit. -/
structure OutputReport (α : Type) where
  name : String
  /-- The display unit as typed; empty for a plain number. -/
  unit : String
  mean : α
  /-- Absent when the uncertainty is exactly zero. -/
  uncertainty : Option α
  relativeUncertainty : Option α
  minDigits : Nat
  deriving Repr, DecidableEq

namespace OutputReport

variable {α : Type} [Arithmetic α] [Displayable α]

/-- A number with the unit behind it. -/
def withUnit (report : OutputReport α) (number : String) : String :=
  if report.unit.isEmpty then number else number ++ " " ++ report.unit

/-- The mean with significant digits. -/
def meanText (report : OutputReport α) (precision : Nat) : String :=
  report.withUnit (Notation.toPrecision precision (Displayable.exact report.mean))

/-- The uncertainty with significant digits. -/
def uncertaintyText (report : OutputReport α) (precision : Nat) : Option String :=
  report.uncertainty.map fun u =>
    report.withUnit (Notation.toPrecision precision (Displayable.exact u))

/-- The mean with the given number of digits of its uncertainty. -/
def conciseText (report : OutputReport α) (digits : Nat) : Option String :=
  report.uncertainty.map fun u => report.withUnit (Notation.concise report.mean u digits)

/-- The uncertainty as a percentage of the mean. -/
def relativeText (report : OutputReport α) (precision : Nat) : Option String :=
  report.uncertainty.bind fun u => Notation.relative u report.mean precision

end OutputReport

namespace Output

variable {σ α : Type} [Scalar α]

/-- The result of a mean and an uncertainty in a display unit. -/
def reportIn (output : Output) (unitText : String) (mean uncertainty : Quantity α)
    (minDigits : Except (PropagationError α) Nat) :
    Except (PropagationError α) (OutputReport α) := do
  let unit ← (CompoundUnit.read unitText).mapError (.invalidUnit unitText)
  let meanValue ← (mean.numberIn unit).mapError .unitMismatch
  let uncertaintyValue ←
    if uncertainty.isZero then pure none
    else ((uncertainty.numberIn unit).mapError .unitMismatch).map some
  let relative :=
    if Arithmetic.isZero meanValue then none
    else uncertaintyValue.map (· / Arithmetic.abs meanValue)
  return ⟨output.name, unitText, meanValue, uncertaintyValue, relative, ← minDigits⟩

/-- The result of an output; missing if the output names no measurement or a
    value cannot be measured yet. Without a display unit the mean's own is
    taken. -/
def evaluate [DerivativeStore σ α] (output : Output) (document : Document α) :
    Propagation σ α (Option (OutputReport α)) := do
  let all := document.measurements
  match document.findBySymbol? output.name with
  | none => return none
  | some m =>
    match ← Propagator.mean m all with
    | none => return none
    | some mean =>
      match ← Propagator.uncertainty m all document.uncertaintyTypes with
      | none => return none
      | some uncertainty =>
        let unitText := output.displayUnit.getD mean.unit.text
        let minDigits := Propagator.minDigits (← get).constants m all
        return some (← ExceptT.mk (pure
          (reportIn output unitText mean uncertainty minDigits)))

end Output

end Metrology
