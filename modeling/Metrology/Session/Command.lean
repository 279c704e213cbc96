import Metrology.Document
import Metrology.Json.Document

/-!
# Commands of a session

A client sends frames of text: the name of a command, a colon, and a payload.
Most payloads are JSON, a few are an identifier, and an import carries a query.

## Main definitions

* `Command`: What a client asks for.
* `CommandError`: Why a command is rejected.
* `Command.read`: The command of a frame.
-/

namespace Metrology

/-- A measurement to be added. -/
inductive NewMeasurement where
  | direct (name unit : String)
  | composite (name formula : String)
  deriving DecidableEq, Repr

/-- What is to be changed in a measurement. Parts that do not fit its kind are
    passed over. -/
structure MeasurementUpdate where
  id : RecordId
  name : Option String
  unit : Option String
  formula : Option String
  typeB : Option (List TypeBEntry)
  deriving DecidableEq, Repr

/-- What a client asks for. -/
inductive Command where
  | addMeasurement (new : NewMeasurement)
  | updateMeasurement (update : MeasurementUpdate)
  | commitSamples (id : RecordId) (input : String) (zeroOffset : Option Float)
  | deleteMeasurement (id : RecordId)
  | moveMeasurement (id : RecordId) (index : Nat)
  | addOutput (name : String) (displayUnit : Option String)
  | updateOutput (id : RecordId) (name displayUnit : Option String)
  | deleteOutput (id : RecordId)
  | setUncertaintyTypes (types : UncertaintyTypes)
  | setGravity (gravity latitude : Option Float)
  | importQuery (query : String)
  | exportQuery

/-- Why a command is rejected. -/
inductive CommandError where
  /-- The payload of the named command cannot be read. -/
  | unreadablePayload (command : String)
  | gravityMissing
  | gravityNotPositive
  | tooManyTypeB (count : Nat)
  | measurement (error : MeasurementError)
  | document (error : DocumentError)
  | notDirect (id : RecordId)
  | malformedQuery (error : RecordError)
  | unknownCommand (name : String)
  deriving DecidableEq, Repr

namespace CommandError

/-- The code of an error. -/
def code : CommandError → String
  | unreadablePayload _ | gravityMissing | gravityNotPositive | tooManyTypeB _ | measurement _ =>
    "BAD_PAYLOAD"
  | document (.notFound _) => "NOT_FOUND"
  | document (.nameTaken _) => "NAME_TAKEN"
  | notDirect _ => "NOT_DIRECT"
  | malformedQuery _ => "IMPORT_FAILED"
  | unknownCommand _ => "UNKNOWN_COMMAND"

/-- The message of an error. What makes a payload unreadable is not said. -/
def message : CommandError → String
  | unreadablePayload command => command ++ ": *"
  | gravityMissing => "SET_GRAVITY: gravity or latitude required"
  | gravityNotPositive => "SET_GRAVITY: gravity must be positive"
  | tooManyTypeB count =>
    "MEASUREMENT_UPDATE: " ++ toString count ++ " uncertainty entries, at most " ++
      toString maxTypeB ++ " allowed"
  | measurement error => "MEASUREMENT_UPDATE: " ++ error.message
  | document error => error.message
  | notDirect id => id.text ++ " is not a direct measurement"
  | malformedQuery error => error.message
  | unknownCommand name => "Unknown command " ++ name

end CommandError

open Json (Value)

/-- Reads a measurement to be added. Names, units and formulas may be left
    out. -/
def NewMeasurement.ofJson? (value : Value) : Option NewMeasurement := do
  let (kind, value) ← value.tagged? "type"
  if kind = "direct" then
    let fields ← value.fields? ["name", "unit"]
    return .direct (← fields.withDefault? "name" "" Value.toText?)
      (← fields.withDefault? "unit" "" Value.toText?)
  else if kind = "composite" then
    let fields ← value.fields? ["name", "formula"]
    return .composite (← fields.withDefault? "name" "" Value.toText?)
      (← fields.withDefault? "formula" "" Value.toText?)
  else none

def MeasurementUpdate.ofJson? [IdSource] (value : Value) : Option MeasurementUpdate := do
  let fields ← value.fields? ["id", "name", "unit", "formula", "uncertainty_b"]
  return {
    id := ← fields.required? "id" Uuid.ofJson?
    name := ← fields.optional? "name" Value.toText?
    unit := ← fields.optional? "unit" Value.toText?
    formula := ← fields.optional? "formula" Value.toText?
    typeB := ← fields.optional? "uncertainty_b" (Value.toList? (TypeBEntry.ofJson? false)) }

namespace Command

def ofUpdate? [IdSource] (value : Value) : Option Command := do
  return updateMeasurement (← MeasurementUpdate.ofJson? value)

def ofSamples? [IdSource] (value : Value) : Option Command := do
  let fields ← value.fields? ["id", "input", "zero_offset"]
  return commitSamples (← fields.required? "id" Uuid.ofJson?)
    (← fields.required? "input" Value.toText?) (← fields.optional? "zero_offset" Value.toFloat?)

def ofMove? [IdSource] (value : Value) : Option Command := do
  let fields ← value.fields? ["id", "index"]
  return moveMeasurement (← fields.required? "id" Uuid.ofJson?)
    (← fields.required? "index" Value.toNat?)

def ofNewOutput? (value : Value) : Option Command := do
  let fields ← value.fields? ["name", "display_unit"]
  return addOutput (← fields.required? "name" Value.toText?)
    (← fields.optional? "display_unit" Value.toText?)

def ofOutputUpdate? [IdSource] (value : Value) : Option Command := do
  let fields ← value.fields? ["id", "name", "display_unit"]
  return updateOutput (← fields.required? "id" Uuid.ofJson?)
    (← fields.optional? "name" Value.toText?) (← fields.optional? "display_unit" Value.toText?)

def ofTypes? (value : Value) : Option Command := do
  let fields ← value.fields? ["type_a", "type_b"]
  return setUncertaintyTypes
    ⟨← fields.required? "type_a" Value.toBool?, ← fields.required? "type_b" Value.toBool?⟩

def ofGravity? (value : Value) : Option Command := do
  let fields ← value.fields? ["gravity", "latitude"]
  return setGravity (← fields.optional? "gravity" Value.toFloat?)
    (← fields.optional? "latitude" Value.toFloat?)

/-- The commands whose payload is JSON. -/
def jsonCommands [IdSource] : List (String × (Value → Option Command)) := [
  ("MEASUREMENT_ADD", fun value => (NewMeasurement.ofJson? value).map addMeasurement),
  ("MEASUREMENT_UPDATE", ofUpdate?),
  ("MEASUREMENT_VALUES", ofSamples?),
  ("MEASUREMENT_REORDER", ofMove?),
  ("OUTPUT_ADD", ofNewOutput?),
  ("OUTPUT_UPDATE", ofOutputUpdate?),
  ("SET_UNCERTAINTY_TYPES", ofTypes?),
  ("SET_GRAVITY", ofGravity?)]

/-- The commands whose payload is an identifier. -/
def idCommands : List (String × (RecordId → Command)) := [
  ("MEASUREMENT_DELETE", deleteMeasurement),
  ("OUTPUT_DELETE", deleteOutput)]

/-- A payload that was read, or else the error of the named command. -/
def orUnreadable (name : String) (command? : Option Command) : Except CommandError Command :=
  match command? with
  | some command => .ok command
  | none => .error (.unreadablePayload name)

/-- The command of a name and a payload. -/
def ofParts [Json.Reader] [IdSource] (name payload : String) : Except CommandError Command :=
  match jsonCommands.lookup name with
  | some ofJson? => orUnreadable name ((Json.Reader.read? payload).bind ofJson?)
  | none =>
    match idCommands.lookup name with
    | some ofId => orUnreadable name ((IdSource.read? (Text.trim payload)).map ofId)
    | none =>
      if name = "IMPORT" then .ok (importQuery payload)
      else if name = "EXPORT" then .ok exportQuery
      else .error (.unknownCommand name)

/-- The command of a frame. Without a colon the whole frame is the name. -/
def read [Json.Reader] [IdSource] (frame : String) : Except CommandError Command :=
  let (name, payload) := (Text.cutOnce? ':' frame).getD (frame, "")
  ofParts name payload

end Command

end Metrology
