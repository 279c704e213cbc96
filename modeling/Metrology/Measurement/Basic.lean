import Metrology.Measurement.Direct

/-!
# Measurements

A measurement is either direct or composite: measured, or calculated by a
formula from others. Outputs point at measurements by name and say in which
unit their results are to be shown.

## Main definitions

* `CompositeMeasurement`: A calculated quantity.
* `Measurement`: A record of either kind.
* `Measurement.symbol?`: The symbol under which formulas find it.
* `Measurement.label`: How messages name it.
* `Output`: A result to be shown.
-/

namespace Metrology

/-- A quantity calculated by a formula. -/
structure CompositeMeasurement where
  id : RecordId
  name : Name
  formula : Formula
  deriving Repr, DecidableEq

/-- How messages name a calculated quantity. -/
def CompositeMeasurement.label (m : CompositeMeasurement) : String :=
  m.name.symbol?.getD m.id.text

/-- A measured or calculated quantity. -/
inductive Measurement (α : Type) where
  | direct (m : DirectMeasurement α)
  | composite (m : CompositeMeasurement)
  deriving Repr, DecidableEq

namespace Measurement

variable {α : Type}

def id : Measurement α → RecordId
  | direct m => m.id
  | composite m => m.id

def name : Measurement α → Name
  | direct m => m.name
  | composite m => m.name

/-- The symbol under which formulas find a measurement. -/
def symbol? (m : Measurement α) : Option String := m.name.symbol?

/-- How messages name a measurement: by its symbol, or else by its
    identifier. -/
def label (m : Measurement α) : String := m.symbol?.getD m.id.text

end Measurement

/-- A result to be shown: the symbol of a measurement and a unit to show it
    in. -/
structure Output where
  id : RecordId
  name : String
  /-- The unit as typed; none to show the result in its own unit. -/
  displayUnit : Option String
  deriving Repr, DecidableEq

/-- A unit as typed, if it is not blank. -/
def Output.unitOf (text : Option String) : Option String :=
  text.filter fun unit => !Text.isBlankText unit

/-- An output; a blank display unit is none. -/
def Output.make (id : RecordId) (name : String) (displayUnit : Option String) : Output :=
  ⟨id, name, unitOf displayUnit⟩

end Metrology
