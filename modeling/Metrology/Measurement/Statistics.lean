import Metrology.Scalar.Basic

/-!
# Statistics of samples

The mean and the variance of a list of samples. Both go through the list once.
The sum behind the mean carries along the low digits that each addition loses,
and adds them at the end. The variance keeps the mean and the sum of squared
deviations of the samples met so far, and corrects both with each sample.

## Main definitions

* `Statistics.sum`: The compensated sum.
* `Statistics.mean`: The arithmetic mean.
* `Statistics.sampleVariance`: The variance with one degree of freedom less
  than there are samples.
* `Statistics.varianceOfMean`: The variance of the mean of the samples.

## Theorems

* `Statistics.mean_eq_none_iff`: Only the empty list has no mean.
* `Statistics.varianceOfMean_eq_none_iff`: Only the empty list has no variance.
-/

namespace Metrology.Statistics

variable {α : Type} [Arithmetic α]

open Arithmetic (abs lessEq ofNat zero)

/-- A running sum and the low digits it has lost so far. -/
structure Accumulator (α : Type) where
  sum : α
  lost : α

/-- Adds one sample. The digits lost are those of the smaller operand. -/
def Accumulator.add (acc : Accumulator α) (x : α) : Accumulator α :=
  let total := acc.sum + x
  let lost :=
    if lessEq (abs x) (abs acc.sum) then acc.sum - total + x else x - total + acc.sum
  ⟨total, acc.lost + lost⟩

/-- The compensated sum of the samples. -/
def sum (samples : List α) : α :=
  let acc := samples.foldl Accumulator.add ⟨zero, zero⟩
  acc.sum + acc.lost

/-- The arithmetic mean; none of no samples. -/
def mean (samples : List α) : Option α :=
  if samples.isEmpty then none else some (sum samples / ofNat samples.length)

/-- The number of samples met, their mean, and the sum of their squared
    deviations from it. -/
structure Moments (α : Type) where
  count : Nat
  mean : α
  deviation : α

/-- Takes in one more sample. -/
def Moments.add (m : Moments α) (x : α) : Moments α :=
  let delta := x - m.mean
  let mean := m.mean + delta / ofNat (m.count + 1)
  ⟨m.count + 1, mean, m.deviation + delta * (x - mean)⟩

/-- The variance of the samples. A single sample has no dispersion, so its
    variance is zero; no samples have no variance. -/
def sampleVariance (samples : List α) : Option α :=
  match samples with
  | [] => none
  | [_] => some zero
  | _ =>
    let moments := samples.foldl Moments.add ⟨0, zero, zero⟩
    some (moments.deviation / ofNat (samples.length - 1))

/-- The variance of the mean of the samples. -/
def varianceOfMean (samples : List α) : Option α :=
  (sampleVariance samples).map (· / ofNat samples.length)

theorem mean_eq_none_iff (samples : List α) : mean samples = none ↔ samples = [] := by
  cases samples <;> simp [mean]

theorem varianceOfMean_eq_none_iff (samples : List α) :
    varianceOfMean samples = none ↔ samples = [] := by
  match samples with
  | [] => simp [varianceOfMean, sampleVariance]
  | [_] => simp [varianceOfMean, sampleVariance]
  | _ :: _ :: _ => simp [varianceOfMean, sampleVariance]

end Metrology.Statistics
