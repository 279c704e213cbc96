import Metrology.Identifier.Uuid
import Metrology.Measurement.Name
import Metrology.Measurement.Sample
import Metrology.Measurement.Statistics
import Metrology.Measurement.TypeB

/-!
# Direct measurements

A quantity that was measured, perhaps several times: a name, a unit as typed,
the samples as typed, and up to two type-B entries.

The numbers of the samples and the count of their digits are derived from the
texts whenever these or the unit change. Lengths are often read off a scale
whose zero is not at zero; the zero offset of such an instrument is subtracted
from the samples, but only while the unit is a length.

## Main definitions

* `DirectMeasurement`: A measured quantity.
* `DirectMeasurement.commit`, `DirectMeasurement.setUnit`, `DirectMeasurement.rename`:
  The changes that always succeed.
* `MeasurementEdit`: Edits in place, which may fail.
* `MeasurementEdit.removeSample`, `MeasurementEdit.setTypeB`,
  `MeasurementEdit.clearTypeB`: The edits at a position.
* `DirectMeasurement.meanValue`, `DirectMeasurement.typeAVariance`,
  `DirectMeasurement.typeBVariance`: What the samples and entries give.
-/

namespace Metrology

/-- The most type-B entries a measurement has. -/
def maxTypeB : Nat := 2

/-- Why a direct measurement cannot be edited. -/
inductive MeasurementError where
  | typeBSlot (index : Nat)
  | sampleIndex (index : Nat)
  deriving DecidableEq, Repr

/-- The message of a rejected edit. -/
def MeasurementError.message : MeasurementError → String
  | typeBSlot index =>
    "Type-B entry " ++ toString index ++ " is out of range (at most " ++ toString maxTypeB ++
      " entries)"
  | sampleIndex index => "Value index " ++ toString index ++ " is out of range"

/-- A measured quantity. -/
structure DirectMeasurement (α : Type) where
  id : RecordId
  name : Name
  /-- The samples as numbers, with the zero offset subtracted. -/
  values : List α
  /-- The unit as typed; empty until there is one. -/
  unit : String
  typeB : List TypeBEntry
  /-- The fewest digits a sample was written with. -/
  minDigits : Nat
  /-- The samples as typed. -/
  inputs : List String
  zeroOffset : Option α
  deriving Repr, DecidableEq

namespace DirectMeasurement

variable {α : Type}

/-- A measurement without samples. -/
def empty (id : RecordId) (name unit : String) : DirectMeasurement α where
  id := id
  name := ⟨name⟩
  values := []
  unit := unit
  typeB := List.replicate maxTypeB .blank
  minDigits := 0
  inputs := []
  zeroOffset := none

/-- Writes texts into the first of several entries, as far as there are
    entries. -/
def fillTypeB : List TypeBEntry → List String → List TypeBEntry
  | entry :: entries, value :: values => { entry with value } :: fillTypeB entries values
  | entries, _ => entries

/-- A measurement without samples but with type-B limits. Texts beyond the
    number of entries are dropped. -/
def withTypeB (id : RecordId) (name unit : String) (values : List String) :
    DirectMeasurement α :=
  let m : DirectMeasurement α := empty id name unit
  { m with typeB := fillTypeB m.typeB values }

variable [Scalar α]

/-- Whether the unit is a length, so that a zero offset makes sense. -/
def supportsZeroCorrection (m : DirectMeasurement α) : Bool :=
  match CompoundUnit.read (α := α) m.unit with
  | .error _ => false
  | .ok unit =>
    match unit.dimension with
    | .error _ => false
    | .ok dimension => !unit.isNone && dimension = { length := 1 }

/-- The number that is subtracted from every sample. -/
def appliedOffset (m : DirectMeasurement α) : α :=
  if m.supportsZeroCorrection then m.zeroOffset.getD Arithmetic.zero else Arithmetic.zero

/-- Derives the numbers and the count of digits from the samples as typed. -/
def recompute (m : DirectMeasurement α) : DirectMeasurement α :=
  let offset := m.appliedOffset
  { m with
    values := (m.inputs.filterMap Sample.parse?).map (· - offset)
    minDigits := Sample.minDigits m.inputs }

/-- Replaces the samples. Entries that are no finite numbers are left out. -/
def commit (m : DirectMeasurement α) (entries : List String) (zeroOffset : Option α) :
    DirectMeasurement α :=
  let inputs := (entries.map Text.trim).filter fun entry => (Sample.parse? (α := α) entry).isSome
  recompute { m with inputs, zeroOffset }

/-- Changes the unit, on which the zero correction depends. -/
def setUnit (m : DirectMeasurement α) (unit : String) : DirectMeasurement α :=
  recompute { m with unit }

/-- Changes the name. While there is no unit, the name suggests one. -/
def rename (m : DirectMeasurement α) (name : String) : DirectMeasurement α :=
  let renamed := { m with name := ⟨name⟩ }
  if m.unit.isEmpty then
    match Name.suggestedUnit? name with
    | some unit => renamed.setUnit unit
    | none => renamed
  else renamed

/-- The mean of the samples in the measurement's unit. -/
def meanValue (m : DirectMeasurement α) : Option α := Statistics.mean m.values

/-- The variance of the mean in the measurement's unit squared. -/
def typeAVariance (m : DirectMeasurement α) : Option α := Statistics.varianceOfMean m.values

/-- The sum of the squared type-B standard uncertainties, in the measurement's
    unit squared. -/
def typeBVariance (m : DirectMeasurement α) : α :=
  (((m.typeB.take maxTypeB).filterMap (·.standardUncertainty? m.unit)).map
    fun u => u * u).foldl (· + ·) Arithmetic.zero

end DirectMeasurement

/-- An edit of a direct measurement in place. What it has changed before it fails stays
    changed. -/
abbrev MeasurementEdit (α β : Type) := ExceptT MeasurementError (StateM (DirectMeasurement α)) β

namespace MeasurementEdit

variable {α : Type}

/-- Puts an entry into a slot, with blank entries in the slots before it that
    are missing. -/
def setTypeB (index : Nat) (entry : TypeBEntry) : MeasurementEdit α PUnit := do
  if maxTypeB ≤ index then throw (.typeBSlot index)
  modify fun m =>
    { m with typeB := m.typeB ++ List.replicate (index + 1 - m.typeB.length) .blank }
  modify fun m => { m with typeB := m.typeB.set index entry }

/-- Blanks an entry; its slot stays. -/
def clearTypeB (index : Nat) : MeasurementEdit α PUnit := do
  if (← get).typeB.length ≤ index then throw (.typeBSlot index)
  modify fun m => { m with typeB := m.typeB.set index .blank }

/-- Removes one sample. -/
def removeSample [Scalar α] (index : Nat) : MeasurementEdit α PUnit := do
  if (← get).inputs.length ≤ index then throw (.sampleIndex index)
  modify fun m => { m with inputs := m.inputs.eraseIdx index }
  modify DirectMeasurement.recompute

end MeasurementEdit

end Metrology
