import Metrology.Measurement.Settings
import Metrology.Propagation.Dependency
import Metrology.Propagation.Derivatives

/-!
# Evaluating the measurement graph

The mean of a direct measurement comes from its samples, and that of a
composite one from its formula at the means of its dependencies. The variance of
a composite measurement follows the linearized law of propagation,
`Var f = Σ (∂f/∂xᵢ)² Var xᵢ`, with the derivatives taken at the means. A result
is missing, without being a failure, while some measurement it depends on has
no samples.

An evaluation carries a context along: the composite measurements it is inside
of, outermost first, the means found so far, and a store of derivatives. A
measurement that is entered while it is on the path closes a cycle. What an
evaluation has put into the context stays there when it fails.

The functions that descend into dependencies take fuel. Every descent enters
one more composite measurement, and no identifier is on the path twice. So as
much fuel as there are identifiers of composite measurements is always enough:
when it is used up, the measurement to be entered is on the path already.

## Main definitions

* `Evaluation.Context`, `Evaluation`: Computations on the graph.
* `Evaluation.mean`: The mean of a measurement.
* `Evaluation.combinedVariance`: The variance of a measurement.
* `Evaluation.minDigits`: The fewest digits of the samples below a measurement.
* `Graph.depth`: Enough fuel.
-/

namespace Metrology

/-- What an evaluation carries along. -/
structure Evaluation.Context (σ α : Type) where
  /-- The composite measurements that are being evaluated, outermost first,
      with their labels. -/
  path : List (RecordId × String)
  /-- The means found so far, the missing ones included. -/
  means : List (RecordId × Option (Quantity α))
  store : σ

/-- A computation on the graph that may fail. -/
abbrev Evaluation (σ α β : Type) :=
  ExceptT (PropagationError α) (StateM (Evaluation.Context σ α)) β

namespace Evaluation

variable {σ α β : Type}

/-- A context in which nothing has been evaluated. -/
def Context.fresh (store : σ) : Context σ α := ⟨[], [], store⟩

/-- An outcome that does not depend on the context. -/
def ofExcept (outcome : Except (PropagationError α) β) : Evaluation σ α β :=
  ExceptT.mk (pure outcome)

/-- An outcome of an operation on units. -/
def ofUnit (outcome : Except (UnitError α) β) : Evaluation σ α β :=
  ofExcept (outcome.mapError .unitMismatch)

/-- An outcome of evaluating a tree. -/
def ofEval (outcome : Except (EvalError α) β) : Evaluation σ α β :=
  ofExcept (outcome.mapError .ofEval)

/-- Fails with the path to a measurement and the measurement itself. -/
def cycle (m : CompositeMeasurement) : Evaluation σ α β := do
  throw (.cyclicReference ((← get).path.map Prod.snd ++ [m.label]))

/-- Puts a composite measurement on the path, unless it is there. -/
def enter (m : CompositeMeasurement) : Evaluation σ α PUnit := do
  if (← get).path.any (·.1 = m.id) then cycle m
  else modify fun context => { context with path := context.path ++ [(m.id, m.label)] }

/-- Takes the last measurement off the path. -/
def leave (context : Context σ α) : Context σ α := { context with path := context.path.dropLast }

/-- A computation with a composite measurement on the path. The measurement is
    taken off again whether or not the computation fails. -/
def within (m : CompositeMeasurement) (body : Evaluation σ α β) : Evaluation σ α β := do
  enter m
  ExceptT.mk do
    let outcome ← body.run
    modify leave
    return outcome

/-- The mean that has been found for an identifier, or else the outcome of a
    computation, which is then kept. -/
def remembered (id : RecordId) (compute : Evaluation σ α (Option (Quantity α))) :
    Evaluation σ α (Option (Quantity α)) := do
  match (← get).means.lookup id with
  | some known => return known
  | none =>
    let value ← compute
    modify fun context => { context with means := (id, value) :: context.means }
    return value

/-- Binds the mean of every dependency to its symbol; nothing if one is
    missing. -/
def bindMeans (meanOf : Measurement α → Evaluation σ α (Option (Quantity α))) :
    List (Measurement α) → Bindings α → Evaluation σ α (Option (Bindings α))
  | [], bindings => return some bindings
  | dependency :: rest, bindings => do
    match ← meanOf dependency with
    | none => return none
    | some value =>
      match dependency.symbol? with
      | some symbol => bindMeans meanOf rest (bindings.bind symbol value)
      | none => bindMeans meanOf rest bindings

/-- The constants, overlaid with the means of the dependencies. -/
def bindings (g : Graph α) (meanOf : Measurement α → Evaluation σ α (Option (Quantity α)))
    (m : CompositeMeasurement) : Evaluation σ α (Option (Bindings α)) := do
  let dependencies ← ofExcept (g.dependencies m)
  bindMeans meanOf dependencies g.constants

section Digits

/-- The fewest digits among the dependencies; none of none. -/
def fewest (digitsOf : Measurement α → Evaluation σ α Nat) :
    List (Measurement α) → Option Nat → Evaluation σ α (Option Nat)
  | [], digits => return digits
  | dependency :: rest, digits => do
    let d ← digitsOf dependency
    fewest digitsOf rest (some (match digits with
      | none => d
      | some current => min current d))

/-- The fewest digits below a composite measurement. One that depends on
    constants only counts zero. -/
def compositeMinDigits (g : Graph α) (digitsOf : Measurement α → Evaluation σ α Nat)
    (m : CompositeMeasurement) : Evaluation σ α Nat := do
  let dependencies ← ofExcept (g.dependencies m)
  return (← fewest digitsOf dependencies none).getD 0

/-- The fewest digits that a sample below a measurement was written with. -/
def minDigits (g : Graph α) : (fuel : Nat) → Measurement α → Evaluation σ α Nat
  | _, .direct m => return m.minDigits
  | 0, .composite m => cycle m
  | fuel + 1, .composite m => within m (compositeMinDigits g (minDigits g fuel) m)

end Digits

variable [Scalar α]

/-- The unit of a direct measurement. -/
def directUnit (m : DirectMeasurement α) : Except (PropagationError α) (CompoundUnit α) :=
  (CompoundUnit.read m.unit).mapError (.invalidUnit m.unit)

/-- The mean of a direct measurement; missing while there are no samples. -/
def directMean (m : DirectMeasurement α) : Except (PropagationError α) (Option (Quantity α)) :=
  match m.meanValue with
  | none => .ok none
  | some mean => do return some (.inUnit mean (← directUnit m))

/-- The mean of a composite measurement. -/
def compositeMean (g : Graph α) (meanOf : Measurement α → Evaluation σ α (Option (Quantity α)))
    (m : CompositeMeasurement) : Evaluation σ α (Option (Quantity α)) := do
  let tree ← ofExcept m.tree
  match ← bindings g meanOf m with
  | none => return none
  | some bound => return some (← ofEval ((Expr.ofDecimals tree).evaluate bound))

/-- The mean of a measurement; missing while a measurement it depends on has no
    samples. -/
def mean (g : Graph α) :
    (fuel : Nat) → Measurement α → Evaluation σ α (Option (Quantity α))
  | _, .direct m => remembered m.id (ofExcept (directMean m))
  | 0, .composite m => remembered m.id (cycle m)
  | fuel + 1, .composite m => remembered m.id (within m (compositeMean g (mean g fuel) m))

/-- The sum of the chosen contributions to a direct measurement's variance;
    missing if samples are needed and there are none. -/
def directContributions (m : DirectMeasurement α) (types : UncertaintyTypes) : Option α := do
  let typeA ← if types.typeA then m.typeAVariance.map (Arithmetic.zero + ·)
    else some Arithmetic.zero
  return if types.typeB then typeA + m.typeBVariance else typeA

/-- The variance of a direct measurement, in the square of its unit. -/
def directVariance (m : DirectMeasurement α) (types : UncertaintyTypes) :
    Except (PropagationError α) (Option (Quantity α)) := do
  let unit ← directUnit m
  match directContributions m types with
  | none => return none
  | some sum => return some (.inUnit sum (← (unit.powInt 2).mapError .unitMismatch))

variable [DerivativeStore σ α]

/-- The derivative of a formula, from the store. -/
def derivative (tree : Expr α) (symbol : String) : Evaluation σ α (Expr α) :=
  modifyGet fun context =>
    let (found, store) := DerivativeStore.derivative context.store tree symbol
    (found, { context with store })

/-- The contribution of one dependency: the square of the partial derivative at
    the means, times the dependency's variance. -/
def term (tree : Expr α) (bound : Bindings α) (symbol : String) (variance : Quantity α) :
    Evaluation σ α (Quantity α) := do
  let slope ← ofEval ((← derivative tree symbol).evaluate bound)
  ofUnit ((← ofUnit (slope.powInt 2)).mul variance)

/-- Adds the contributions of the dependencies to a total; missing if the
    variance of one is. A dependency without variance is passed over. -/
def addTerms (tree : Expr α) (bound : Bindings α)
    (varianceOf : Measurement α → Evaluation σ α (Option (Quantity α))) :
    List (Measurement α) → Quantity α → Evaluation σ α (Option (Quantity α))
  | [], total => return some total
  | dependency :: rest, total => do
    match dependency.symbol? with
    | none => addTerms tree bound varianceOf rest total
    | some symbol =>
      match ← varianceOf dependency with
      | none => return none
      | some variance =>
        if variance.isZero then addTerms tree bound varianceOf rest total
        else
          let contribution ← term tree bound symbol variance
          addTerms tree bound varianceOf rest (← ofUnit (total.add contribution))

/-- The variance of a composite measurement, in the square of its mean's
    unit. -/
def compositeVariance (g : Graph α)
    (meanOf varianceOf : Measurement α → Evaluation σ α (Option (Quantity α)))
    (m : CompositeMeasurement) : Evaluation σ α (Option (Quantity α)) := do
  let tree : Expr α := .ofDecimals (← ofExcept m.tree)
  match ← bindings g meanOf m with
  | none => return none
  | some bound =>
    let mean ← ofEval (tree.evaluate bound)
    let unit ← ofUnit (mean.unit.powInt 2)
    let dependencies ← ofExcept (g.dependencies m)
    addTerms tree bound varianceOf dependencies (.inUnit Arithmetic.zero unit)

/-- The variance of a measurement by the law of propagation. -/
def combinedVariance (g : Graph α) (types : UncertaintyTypes) :
    (fuel : Nat) → Measurement α → Evaluation σ α (Option (Quantity α))
  | _, .direct m => ofExcept (directVariance m types)
  | 0, .composite m => cycle m
  | fuel + 1, .composite m =>
    within m (compositeVariance g (mean g fuel) (combinedVariance g types fuel) m)

end Evaluation

/-- The identifiers of the composite measurements in a list, each once. -/
def Graph.compositeIds {α : Type} (measurements : List (Measurement α)) : List RecordId :=
  (measurements.filterMap fun
    | .direct _ => none
    | .composite m => some m.id).eraseDups

/-- Enough fuel to evaluate `m`: the number of composite measurements that can
    be on the path. -/
def Graph.depth {α : Type} (g : Graph α) (m : Measurement α) : Nat :=
  (Graph.compositeIds (m :: g.measurements)).length

end Metrology
