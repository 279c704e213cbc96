import Metrology.Propagation.Evaluation

/-!
# Propagators

What outlives one evaluation: the constants, and the store of derivatives. Each
question to a propagator is answered in a fresh context, so that only the store
passes from one to the next.

## Main definitions

* `Propagator`: Constants with a store of derivatives.
* `Propagator.mean`, `Propagator.combinedVariance`, `Propagator.uncertainty`,
  `Propagator.minDigits`: The questions.
-/

namespace Metrology

/-- Constants with a store of derivatives. -/
structure Propagator (σ α : Type) where
  constants : Bindings α
  store : σ

/-- A computation that uses a propagator and may fail. -/
abbrev Propagation (σ α β : Type) :=
  ExceptT (PropagationError α) (StateM (Propagator σ α)) β

namespace Propagator

variable {σ α β : Type}

/-- Answers a question about the measurements in a fresh context and keeps the
    store it leaves. -/
def ask (all : List (Measurement α)) (question : Graph α → Evaluation σ α β) :
    Propagation σ α β :=
  ExceptT.mk fun propagator =>
    let (outcome, context) :=
      (question ⟨all, propagator.constants⟩).run (.fresh propagator.store)
    (outcome, { propagator with store := context.store })

/-- The fewest digits that a sample below a measurement was written with. -/
def minDigits (constants : Bindings α) (m : Measurement α) (all : List (Measurement α)) :
    Except (PropagationError α) Nat :=
  let g : Graph α := ⟨all, constants⟩
  ((Evaluation.minDigits g (g.depth m) m).run (.fresh (NoMemory.mk (α := α)))).1

variable [Scalar α]

/-- The mean of a measurement. -/
def mean (m : Measurement α) (all : List (Measurement α)) :
    Propagation σ α (Option (Quantity α)) :=
  ask all fun g => Evaluation.mean g (g.depth m) m

variable [DerivativeStore σ α]

/-- The variance of a measurement. -/
def combinedVariance (m : Measurement α) (all : List (Measurement α)) (types : UncertaintyTypes) :
    Propagation σ α (Option (Quantity α)) :=
  ask all fun g => Evaluation.combinedVariance g types (g.depth m) m

/-- The square root of a variance. -/
def standardDeviation : Option (Quantity α) →
    Except (PropagationError α) (Option (Quantity α))
  | none => .ok none
  | some variance => (variance.sqrt.mapError .unitMismatch).map some

/-- The uncertainty of a measurement. -/
def uncertainty (m : Measurement α) (all : List (Measurement α)) (types : UncertaintyTypes) :
    Propagation σ α (Option (Quantity α)) := do
  let variance ← combinedVariance m all types
  ExceptT.mk (pure (standardDeviation variance))

end Propagator

end Metrology
