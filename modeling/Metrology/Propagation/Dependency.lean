import Metrology.Measurement.Basic
import Metrology.Propagation.Error

/-!
# Dependencies

Which measurements a formula refers to. Each distinct symbol of the formula
means the first other measurement that carries it. A symbol that no other
measurement carries may name a constant, and is then no dependency; if it is the
measurement's own symbol, the measurement refers to itself. Dependencies keep
the order in which the formula first mentions them, and none is listed twice.

## Main definitions

* `Graph`: The measurements and constants that formulas refer to.
* `CompositeMeasurement.tree`: The tree of a formula, or why there is none.
* `Graph.find?`: The measurement that a symbol means.
* `Graph.dependencies`: The measurements that a formula refers to.
-/

namespace Metrology

/-- The measurements and constants that formulas refer to. -/
structure Graph (α : Type) where
  measurements : List (Measurement α)
  constants : Bindings α

/-- The tree of a formula, or why there is none. -/
def CompositeMeasurement.tree {α : Type} (m : CompositeMeasurement) :
    Except (PropagationError α) (Expr Decimal) :=
  match m.formula.read? with
  | none => .error .emptyFormula
  | some (.error error) => .error (.unparsableFormula error)
  | some (.ok tree) => .ok tree

namespace Graph

variable {α : Type}

/-- The first measurement but `m` that carries a symbol. -/
def find? (g : Graph α) (m : CompositeMeasurement) (symbol : String) : Option (Measurement α) :=
  g.measurements.find? fun other => other.symbol? = some symbol && other.id ≠ m.id

/-- Adds what a symbol of `m`'s formula means to the dependencies found so
    far. -/
def resolve (g : Graph α) (m : CompositeMeasurement) (found : List (Measurement α))
    (symbol : String) : Except (PropagationError α) (List (Measurement α)) :=
  match g.find? m symbol with
  | some dependency =>
    .ok (if found.any (·.id = dependency.id) then found else found ++ [dependency])
  | none =>
    if m.name.symbol? = some symbol then .error (.cyclicReference [symbol, symbol])
    else if (g.constants symbol).isSome || (Constant.ofName? symbol).isSome then .ok found
    else .error (.undefinedMeasurement symbol)

/-- The measurements that a formula refers to. -/
def dependencies (g : Graph α) (m : CompositeMeasurement) :
    Except (PropagationError α) (List (Measurement α)) := do
  let tree ← m.tree
  tree.freeSymbols.foldlM (g.resolve m) []

end Graph

end Metrology
