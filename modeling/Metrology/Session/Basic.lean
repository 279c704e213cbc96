import Metrology.Session.Command

/-!
# Sessions

One client's document and what the session keeps beside it: the constants and
derivatives of propagation, and the number of the next record. A command that
is carried out is answered by the whole document and the results of its
outputs; a rejected one by an error. Commands edit the session in place, and
nothing is undone when one fails.

Records are numbered in the order in which they come into the document. A
number is never given out again.

## Main definitions

* `Session`: The state of a session.
* `Session.start`: A session with an empty document.
* `SessionEdit`: Edits of a session in place.
* `Session.apply`: Carrying out a command.
* `OutputState`, `Session.evaluateOutputs`: The results of the outputs.
* `Frame`: An answer to the client.
* `Session.snapshot`, `Session.handle`: The answers to a new client and to a
  frame.
-/

namespace Metrology

/-- The propagator of a session. -/
abbrev SessionPropagator := Propagator (DerivativeCache Float) Float

/-- The state of a session. -/
structure Session where
  document : Document Float
  propagator : SessionPropagator
  /-- The number of the next record. -/
  nextSerial : Nat

/-- A computation that edits a session in place. What it has changed before it
    fails stays changed. -/
abbrev SessionEdit (β : Type) := ExceptT CommandError (StateM Session) β

/-- What a command leads to: new results, or the query of the document. -/
inductive Reply where
  | refresh
  | query (text : String)
  deriving DecidableEq, Repr

/-- The result of an output, or why there is none. -/
structure OutputState where
  id : RecordId
  name : String
  report : Option (OutputReport Float)
  concise : Option String
  error : Option String

/-- An answer to the client. -/
inductive Frame where
  | document (payload : Json.Tree)
  | outputs (payload : Json.Tree)
  | query (text : String)
  | error (payload : Json.Tree)

namespace Frame

/-- The text of an answer. -/
def text : Frame → String
  | document payload => "DOCUMENT_UPDATE:" ++ payload.render
  | outputs payload => "OUTPUTS_UPDATE:" ++ payload.render
  | query text => "EXPORT:" ++ text
  | error payload => "ERROR_UPDATE:" ++ payload.render

/-- The answer to a rejected command. -/
def ofError (e : CommandError) : Frame :=
  error (.record [
    ("code", .text e.code), ("message", .text e.message), ("severity", .text "error")])

end Frame

/-- Writes the result of an output. -/
def OutputState.toJson (state : OutputState) : Json.Tree :=
  .record [
    ("id", .text state.id.text),
    ("name", .text state.name),
    ("report", state.report.elim .null OutputReport.toJson),
    ("concise", .ofText? state.concise),
    ("error", .ofText? state.error)]

namespace Session

/-- The number of uncertain digits in the concise form of a result. -/
def conciseDigits : Nat := 2

/-- A session with an empty document. -/
def start (gravity : Float) : Session :=
  let document : Document Float := { Document.empty with settings := ⟨gravity⟩ }
  ⟨document, ⟨document.constants, .empty⟩, 1⟩

/-- Edits the document of a session. -/
def onDocument {β : Type} (edit : DocumentEdit Float β) : SessionEdit β :=
  ExceptT.mk fun session =>
    let (outcome, document) := edit.run session.document
    (outcome.mapError .document, { session with document })

/-- Edits the measurement with an identifier where it stands in the document. -/
def onMeasurement {β : Type} (id : RecordId)
    (edit : ExceptT CommandError (StateM (Measurement Float)) β) : SessionEdit β :=
  ExceptT.mk fun session =>
    match session.document.measurement? id with
    | none => (.error (.document (.notFound id)), session)
    | some m =>
      let (outcome, m) := edit.run m
      (outcome, { session with document := session.document.putMeasurement id m })

/-- A new measurement under an identifier. The name of a direct one suggests a
    unit if none is given. -/
def create (id : RecordId) : NewMeasurement → Measurement Float
  | .direct name unit => .direct ((DirectMeasurement.empty id "" unit).rename name)
  | .composite name formula => .composite ⟨id, ⟨name⟩, ⟨formula⟩⟩

/-- Adds a measurement under the next number. -/
def addMeasurement [IdSource] (new : NewMeasurement) : SessionEdit PUnit := do
  onDocument (.addMeasurement (create (IdSource.serial (← get).nextSerial) new))
  modify fun session => { session with nextSerial := session.nextSerial + 1 }

/-- Puts entries into their type-B slots, one after the other. -/
def putTypeB (m : DirectMeasurement Float) :
    List (TypeBEntry × Nat) → ExceptT CommandError (StateM (Measurement Float)) PUnit
  | [] => return
  | (entry, index) :: rest => do
    let (outcome, m) := (MeasurementEdit.setTypeB index entry).run m
    set (Measurement.direct m)
    match outcome with
    | .error error => throw (.measurement error)
    | .ok _ => putTypeB m rest

/-- Changes what an update says beside the name: the unit and then the type-B
    entries of a direct measurement, or the formula of a composite one. -/
def updateContents (update : MeasurementUpdate) :
    ExceptT CommandError (StateM (Measurement Float)) PUnit := do
  match ← get with
  | .direct m =>
    let m := update.unit.elim m m.setUnit
    set (Measurement.direct m)
    putTypeB m (update.typeB.getD []).zipIdx
  | .composite m =>
    set (Measurement.composite (α := Float)
      { m with formula := update.formula.elim m.formula Formula.mk })

/-- Changes a measurement: its name first, if that is free, then the rest. -/
def updateMeasurement (update : MeasurementUpdate) : SessionEdit PUnit := do
  if ((← get).document.measurement? update.id).isNone then
    throw (.document (.notFound update.id))
  -- Nothing may be renamed before the entries have been counted.
  let count := (update.typeB.getD []).length
  if maxTypeB < count then throw (.tooManyTypeB count)
  if let some name := update.name then onDocument (.renameMeasurement update.id name)
  onMeasurement update.id (updateContents update)

/-- Replaces the samples of a direct measurement. -/
def commitSamples (id : RecordId) (input : String) (zeroOffset : Option Float) :
    SessionEdit PUnit :=
  onMeasurement id do
    match ← get with
    | .direct m => set (Measurement.direct (m.commit (Sample.split input) zeroOffset))
    | .composite _ => throw (.notDirect id)

/-- Adds an output under the next number. -/
def addOutput [IdSource] (name : String) (displayUnit : Option String) : SessionEdit PUnit := do
  onDocument (.addOutput (.make (IdSource.serial (← get).nextSerial) name displayUnit))
  modify fun session => { session with nextSerial := session.nextSerial + 1 }

/-- An output with another target, which drops its unit, or another unit. -/
def changeOutput (name displayUnit : Option String) (output : Output) : Output :=
  let output := name.elim output fun name => { output with name, displayUnit := none }
  displayUnit.elim output fun unit => { output with displayUnit := Output.unitOf (some unit) }

/-- Sets the gravitational acceleration, given itself or by a latitude. -/
def setGravity (gravity latitude : Option Float) : SessionEdit PUnit :=
  match gravity.or (latitude.map Settings.gravityAtLatitude) with
  | none => throw .gravityMissing
  | some gravity => do
    if !(gravity.isFinite && 0.0 < gravity) then throw .gravityNotPositive
    modify fun session =>
      { session with document := { session.document with settings := ⟨gravity⟩ } }
    modify fun session =>
      { session with propagator := { session.propagator with constants := session.document.constants } }

/-- Replaces the records of the document by those of a query. -/
def importQuery [QueryCodec] [IdSource] (query : String) : SessionEdit PUnit :=
  match Record.decodeAll query with
  | .error error => throw (.malformedQuery error)
  | .ok records =>
    modify fun session => { session with
      document := session.document.load (fun n => IdSource.serial (session.nextSerial + n)) records
      nextSerial := session.nextSerial + records.length }

/-- Carries out a command. -/
def apply [QueryCodec] [IdSource] : Command → SessionEdit Reply
  | .addMeasurement new => do
    addMeasurement new
    return .refresh
  | .updateMeasurement update => do
    updateMeasurement update
    return .refresh
  | .commitSamples id input zeroOffset => do
    commitSamples id input zeroOffset
    return .refresh
  | .deleteMeasurement id => do
    let _ ← onDocument (.removeMeasurement id)
    return .refresh
  | .moveMeasurement id index => do
    onDocument (.moveMeasurement id index)
    return .refresh
  | .addOutput name displayUnit => do
    addOutput name displayUnit
    return .refresh
  | .updateOutput id name displayUnit => do
    onDocument (.editOutput id (changeOutput name displayUnit))
    return .refresh
  | .deleteOutput id => do
    let _ ← onDocument (.removeOutput id)
    return .refresh
  | .setUncertaintyTypes types => do
    modify fun session =>
      { session with document := { session.document with uncertaintyTypes := types } }
    return .refresh
  | .setGravity gravity latitude => do
    setGravity gravity latitude
    return .refresh
  | .importQuery query => do
    importQuery query
    return .refresh
  | .exportQuery => return .query (← get).document.toQuery

/-- The result of an output, and the propagator after it. -/
def evaluateOutput [IdSource] (document : Document Float) (output : Output) :
    StateM SessionPropagator OutputState := do
  match ← (output.evaluate document).run with
  | .ok report =>
    return ⟨output.id, output.name, report, report.bind (·.conciseText conciseDigits), none⟩
  | .error error => return ⟨output.id, output.name, none, none, some error.message⟩

/-- The results of all outputs in order. -/
def evaluateOutputs [IdSource] (session : Session) : List OutputState × Session :=
  let (states, propagator) :=
    (session.document.outputs.mapM (evaluateOutput session.document)).run session.propagator
  (states, { session with propagator })

/-- The whole document and the results of its outputs. -/
def snapshot [IdSource] (session : Session) : List Frame × Session :=
  let (states, session) := session.evaluateOutputs
  ([.document session.document.toJson, .outputs (.list (states.map OutputState.toJson))], session)

/-- The answers to a frame. A command that fails leaves the session as it has
    changed it up to there. -/
def handle [QueryCodec] [Json.Reader] [IdSource] (session : Session) (frame : String) :
    List Frame × Session :=
  match Command.read frame with
  | .error error => ([.ofError error], session)
  | .ok command =>
    match (apply command).run session with
    | (.error error, session) => ([.ofError error], session)
    | (.ok .refresh, session) => session.snapshot
    | (.ok (.query text), session) => ([.query text], session)

end Session

end Metrology
