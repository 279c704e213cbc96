import Metrology.Measurement.Basic
import Metrology.Measurement.Settings
import Metrology.Record

/-!
# Documents

A document is a list of measurements, a list of outputs, and settings. Records
are found by their identifiers. The symbols of measurements are kept distinct
by every edit that gives a measurement a name; loading records does not look
at symbols.

An edit works in place, as a computation that carries the document along. It
may fail, and then says why; the document is left as the edit has changed it up
to there. The same edits are also there as functions that answer with the
changed document.

## Main definitions

* `Document`: Measurements, outputs and settings.
* `DocumentError`: Why an edit is rejected.
* `DocumentEdit`: Edits in place.
* `DocumentEdit.addMeasurement`, `DocumentEdit.renameMeasurement`,
  `DocumentEdit.removeMeasurement`, `DocumentEdit.moveMeasurement`,
  `DocumentEdit.editMeasurement`: Edits of measurements.
* `DocumentEdit.addOutput`, `DocumentEdit.editOutput`,
  `DocumentEdit.removeOutput`: Edits of outputs.
* `Document.edited`: The document that an edit leads to.
* `Document.toRecords`, `Document.load`: The records of a document.
-/

namespace Metrology

/-- Measurements, outputs and settings. -/
structure Document (α : Type) where
  measurements : List (Measurement α)
  outputs : List Output
  settings : Settings α
  uncertaintyTypes : UncertaintyTypes
  deriving Repr, DecidableEq

/-- Why an edit is rejected. -/
inductive DocumentError where
  | notFound (id : RecordId)
  | nameTaken (name : String)
  deriving DecidableEq, Repr

/-- The message of a rejected edit. -/
def DocumentError.message : DocumentError → String
  | notFound id => "No record with id " ++ id.text
  | nameTaken name => "Name already in use: " ++ name

namespace Document

variable {α : Type}

/-- A document without records. -/
def empty [Scalar α] : Document α := ⟨[], [], .standard, {}⟩

/-- The constants that formulas find. -/
def constants [Scalar α] (document : Document α) : Bindings α := document.settings.constants

/-- Whether another measurement than the excepted one carries the symbol that a
    name is. -/
def isNameTaken (document : Document α) (name : String) (except : Option RecordId) : Bool :=
  match (Name.mk name).symbol? with
  | none => false
  | some symbol =>
    document.measurements.any fun m => some m.id ≠ except && m.symbol? = some symbol

/-- The first measurement that carries a symbol. -/
def findBySymbol? (document : Document α) (symbol : String) : Option (Measurement α) :=
  document.measurements.find? fun m => m.symbol? = some symbol

/-- The measurement with an identifier. -/
def measurement? (document : Document α) (id : RecordId) : Option (Measurement α) :=
  document.measurements.find? fun m => m.id = id

/-- The output with an identifier. -/
def output? (document : Document α) (id : RecordId) : Option Output :=
  document.outputs.find? fun output => output.id = id

/-- Changes the first element of a list that a test picks. -/
def changeFirst {β : Type} (picks : β → Bool) (change : β → β) : List β → List β
  | [] => []
  | x :: xs => if picks x then change x :: xs else x :: changeFirst picks change xs

/-- Takes out the first element of a list that a test picks. -/
def takeOut? {β : Type} (picks : β → Bool) : List β → Option (β × List β)
  | [] => none
  | x :: xs =>
    if picks x then some (x, xs) else (takeOut? picks xs).map fun (y, rest) => (y, x :: rest)

/-- The document with another measurement in the place of the first one with an
    identifier. -/
def putMeasurement (document : Document α) (id : RecordId) (m : Measurement α) : Document α :=
  { document with
    measurements := changeFirst (fun other => other.id = id) (fun _ => m) document.measurements }

end Document

/-- An edit of a document in place. What it has changed before it fails stays
    changed. -/
abbrev DocumentEdit (α β : Type) := ExceptT DocumentError (StateM (Document α)) β

namespace DocumentEdit

variable {α β : Type}

/-- The answer of an edit with the document that it leaves, if it succeeds. -/
def outcome (edit : DocumentEdit α β) (document : Document α) :
    Except DocumentError (β × Document α) :=
  match edit.run document with
  | (.ok answer, document) => .ok (answer, document)
  | (.error error, _) => .error error

/-- Appends a measurement, unless its name is taken. -/
def addMeasurement (m : Measurement α) : DocumentEdit α PUnit := do
  if (← get).isNameTaken m.name.text none then throw (.nameTaken m.name.text)
  modify fun document => { document with measurements := document.measurements ++ [m] }

/-- Changes the measurement with an identifier. -/
def editMeasurement (id : RecordId) (edit : Measurement α → Measurement α) :
    DocumentEdit α PUnit := do
  if ((← get).measurement? id).isNone then throw (.notFound id)
  modify fun document => { document with
    measurements := Document.changeFirst (fun m => m.id = id) edit document.measurements }

/-- Gives a measurement another name, unless that is taken. -/
def renameMeasurement [Scalar α] (id : RecordId) (name : String) : DocumentEdit α PUnit := do
  if (← get).isNameTaken name (some id) then throw (.nameTaken name)
  editMeasurement id fun
    | .direct m => .direct (m.rename name)
    | .composite m => .composite { m with name := ⟨name⟩ }

/-- Removes a measurement and returns it. -/
def removeMeasurement (id : RecordId) : DocumentEdit α (Measurement α) := do
  match Document.takeOut? (fun m : Measurement α => m.id = id) (← get).measurements with
  | none => throw (.notFound id)
  | some (m, measurements) =>
    modify fun document => { document with measurements }
    return m

/-- Moves a measurement to a position, or to the end if that is nearer. -/
def moveMeasurement (id : RecordId) (index : Nat) : DocumentEdit α PUnit := do
  let m ← removeMeasurement id
  modify fun document => { document with
    measurements := document.measurements.take index ++ m :: document.measurements.drop index }

/-- Appends an output. -/
def addOutput (output : Output) : DocumentEdit α PUnit :=
  modify fun document => { document with outputs := document.outputs ++ [output] }

/-- Changes the output with an identifier. -/
def editOutput (id : RecordId) (edit : Output → Output) : DocumentEdit α PUnit := do
  if ((← get).output? id).isNone then throw (.notFound id)
  modify fun document => { document with
    outputs := Document.changeFirst (fun output => output.id = id) edit document.outputs }

/-- Removes an output and returns it. -/
def removeOutput (id : RecordId) : DocumentEdit α Output := do
  match Document.takeOut? (fun output : Output => output.id = id) (← get).outputs with
  | none => throw (.notFound id)
  | some (output, outputs) =>
    modify fun document => { document with outputs }
    return output

end DocumentEdit

namespace Document

variable {α : Type}

/-- The document after an edit, if it succeeds. -/
def edited (document : Document α) (edit : DocumentEdit α PUnit) :
    Except DocumentError (Document α) :=
  (edit.outcome document).map Prod.snd

/-- The document with a further measurement, unless its name is taken. -/
def addMeasurement (document : Document α) (m : Measurement α) :
    Except DocumentError (Document α) :=
  document.edited (.addMeasurement m)

/-- The document with a measurement changed. -/
def editMeasurement (document : Document α) (id : RecordId)
    (edit : Measurement α → Measurement α) : Except DocumentError (Document α) :=
  document.edited (.editMeasurement id edit)

/-- The document with another name for a measurement, unless that is taken. -/
def renameMeasurement [Scalar α] (document : Document α) (id : RecordId) (name : String) :
    Except DocumentError (Document α) :=
  document.edited (.renameMeasurement id name)

/-- A measurement and the document without it. -/
def removeMeasurement (document : Document α) (id : RecordId) :
    Except DocumentError (Measurement α × Document α) :=
  (DocumentEdit.removeMeasurement id).outcome document

/-- The document with a measurement in another position. -/
def moveMeasurement (document : Document α) (id : RecordId) (index : Nat) :
    Except DocumentError (Document α) :=
  document.edited (.moveMeasurement id index)

/-- The document with a further output. -/
def addOutput (document : Document α) (output : Output) : Document α :=
  ((DocumentEdit.addOutput output).run document).2

/-- The document with an output changed. -/
def editOutput (document : Document α) (id : RecordId) (edit : Output → Output) :
    Except DocumentError (Document α) :=
  document.edited (.editOutput id edit)

/-- An output and the document without it. -/
def removeOutput (document : Document α) (id : RecordId) :
    Except DocumentError (Output × Document α) :=
  (DocumentEdit.removeOutput id).outcome document

/-- The record of a measurement, if it has a name. -/
def recordOf? (m : Measurement α) : Option Record :=
  if m.name.text.isEmpty then none
  else
    some (match m with
    | .direct d => .direct d.name.text d.unit (d.typeB.map (·.value))
    | .composite c => .composite c.name.text c.formula.text)

/-- The record of an output, if it has a name. -/
def outputRecord? (output : Output) : Option Record :=
  if output.name.isEmpty then none else some (.output output.name output.displayUnit)

/-- The records of every named measurement and then of every named output. -/
def toRecords (document : Document α) : List Record :=
  document.measurements.filterMap recordOf? ++ document.outputs.filterMap outputRecord?

/-- The measurement that a record stands for, under a given identifier. -/
def measurementOf? (id : RecordId) : Record → Option (Measurement α)
  | .direct name unit typeB => some (.direct (.withTypeB id name unit typeB))
  | .composite name formula => some (.composite ⟨id, ⟨name⟩, ⟨formula⟩⟩)
  | .output .. => none

/-- The output that a record stands for, under a given identifier. -/
def outputOf? (id : RecordId) : Record → Option Output
  | .output name displayUnit => some (.make id name displayUnit)
  | _ => none

/-- Whether a record stands for an output. -/
def isOutput : Record → Bool
  | .output .. => true
  | _ => false

/-- Replaces measurements and outputs by fresh ones, and keeps the settings. The
    `n`-th identifier goes to the `n`-th of the measurements followed by the
    outputs. -/
def load (document : Document α) (ids : Nat → RecordId) (records : List Record) : Document α :=
  let measured := records.filter (!isOutput ·)
  let shown := records.filter isOutput
  { document with
    measurements := measured.zipIdx.filterMap fun (record, n) => measurementOf? (ids n) record
    outputs := shown.zipIdx.filterMap fun (record, n) => outputOf? (ids (measured.length + n)) record }

/-- The query of a document. -/
def toQuery [QueryCodec] (document : Document α) : String := Record.encodeAll document.toRecords

/-- The document of a query, with standard settings. -/
def ofQuery [QueryCodec] [Scalar α] (ids : Nat → RecordId) (query : String) :
    Except RecordError (Document α) := do
  return (empty : Document α).load ids (← Record.decodeAll query)

end Document

end Metrology
