import Metrology.Identifier.Uuid
import Metrology.Json.Fields
import Metrology.Json.Tree
import Metrology.Measurement.Basic
import Metrology.Scalar.Double

/-!
# Measurements in JSON

The JSON form of a measurement says its kind in the member `type`. A direct
measurement carries its samples both as numbers and as typed, and neither is
derived from the other when it is read. Names and formulas are their texts.

## Main definitions

* `Uuid.ofJson?`, `Distribution.ofJson?`, `TypeBEntry.ofJson?`: Reading parts.
* `Measurement.ofJson?`: Reading a measurement.
* `Measurement.toJson`: Writing a measurement.
-/

namespace Metrology

open Json (Tree Value)

def Uuid.ofJson? [IdSource] (value : Value) : Option Uuid := value.toText?.bind IdSource.read?

/-- Reads a shape: its name, or an object whose only key is its name. The value
    of the key is null; within a record of several shapes it may be an empty
    object too. -/
def Distribution.ofJson? (inTagged : Bool) : Value → Option Distribution
  | .string (some name) => ofName? name
  | .object [(some name, .null)] => ofName? name
  | .object [(some name, .object [])] => if inTagged then ofName? name else .none
  | _ => .none

/-- Reads a type-B entry. Without a shape it has the usual one, where that is
    allowed. -/
def TypeBEntry.ofJson? (inTagged : Bool) (value : Value) : Option TypeBEntry := do
  let fields ← value.fields? ["value", "distribution"]
  let shape? := Distribution.ofJson? inTagged
  return {
    value := ← fields.required? "value" Value.toText?
    distribution := ←
      if inTagged then fields.required? "distribution" shape?
      else fields.withDefault? "distribution" .normal shape? }

def DirectMeasurement.ofJson? [IdSource] (value : Value) : Option (DirectMeasurement Float) := do
  let fields ← value.fields?
    ["id", "name", "values", "unit", "uncertainty_b", "min_digits", "inputs", "zero_offset"]
  return {
    id := ← fields.required? "id" Uuid.ofJson?
    name := ⟨← fields.required? "name" Value.toText?⟩
    values := ← fields.required? "values" (Value.toList? Value.toFloat?)
    unit := ← fields.required? "unit" Value.toText?
    typeB := ← fields.required? "uncertainty_b" (Value.toList? (TypeBEntry.ofJson? true))
    minDigits := ← fields.required? "min_digits" Value.toNat?
    inputs := ← fields.withDefault? "inputs" [] (Value.toList? Value.toText?)
    zeroOffset := ← fields.withDefault? "zero_offset" none fun
      | .null => some none
      | value => value.toFloat?.map some }

def CompositeMeasurement.ofJson? [IdSource] (value : Value) : Option CompositeMeasurement := do
  let fields ← value.fields? ["id", "name", "formula"]
  return {
    id := ← fields.required? "id" Uuid.ofJson?
    name := ⟨← fields.required? "name" Value.toText?⟩
    formula := ⟨← fields.required? "formula" Value.toText?⟩ }

/-- Reads a measurement of either kind. -/
def Measurement.ofJson? [IdSource] (value : Value) : Option (Measurement Float) := do
  let (kind, value) ← value.tagged? "type"
  if kind = "direct" then return .direct (← DirectMeasurement.ofJson? value)
  else if kind = "composite" then return .composite (← CompositeMeasurement.ofJson? value)
  else none

def TypeBEntry.toJson (entry : TypeBEntry) : Tree :=
  .record [("value", .text entry.value), ("distribution", .text entry.distribution.name)]

/-- Writes a measurement. -/
def Measurement.toJson : Measurement Float → Tree
  | .direct m => .record [
      ("type", .text "direct"),
      ("id", .text m.id.text),
      ("name", .text m.name.text),
      ("values", .list (m.values.map .float)),
      ("unit", .text m.unit),
      ("uncertainty_b", .list (m.typeB.map TypeBEntry.toJson)),
      ("min_digits", .integer m.minDigits),
      ("inputs", .list (m.inputs.map .text)),
      ("zero_offset", .ofFloat? m.zeroOffset)]
  | .composite m => .record [
      ("type", .text "composite"),
      ("id", .text m.id.text),
      ("name", .text m.name.text),
      ("formula", .text m.formula.text)]

end Metrology
