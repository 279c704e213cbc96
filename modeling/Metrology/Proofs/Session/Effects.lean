import Metrology.Proofs.Report.Growth
import Metrology.Proofs.Session.Memory

/-!
# What a command leaves alone

A command that is carried out changes what it names and nothing else. The parts of a
session that it may change are known from the command alone, and in the list that it
changes, every record but one stays as it is and where it is among the others. The
answer that follows evaluates all outputs, which can only add derivatives to the cache.

## Main definitions

* `Document.Between`: The place of a record in a list.
* `Document.Changed`, `Document.Removed`, `Document.Moved`: What may happen at that place.
* `Command.word`: The name of a command in a frame.
* `Part`, `Command.parts`: The parts of a session, and which of them a command changes.
* `Command.Effect`: What a command does to the lists of records.

## Theorems

* `Command.word_of_read`: A frame is read as the command that it names.
* `Session.Carried.agrees`, `Session.Carried.effect`: What a command changes.
* `Session.onward_snapshot`: What the answer changes.
* `Session.handle_effect`: What a frame that is answered without an error changes.
-/

namespace Metrology

namespace Document

section Places

variable {β : Type} (idOf : β → RecordId) (id : RecordId) (xs ys : List β)

/-- The one record of a list with an identifier, with those before and those behind it. -/
structure Between (before : List β) (x : β) (after : List β) : Prop where
  list_eq : xs = before ++ x :: after
  id_eq : idOf x = id
  others : ∀ other ∈ before ++ after, idOf other ≠ id

/-- The record with an identifier may have become another one, at its place. -/
def Changed (same : β → β → Prop) : Prop :=
  ∃ before x after x', Between idOf id xs before x after ∧ Between idOf id ys before x' after ∧
    same x x'

/-- The record with an identifier is gone. -/
def Removed : Prop := ∃ before x after, Between idOf id xs before x after ∧ ys = before ++ after

/-- The record with an identifier is at an index, or at the end if that is nearer. -/
def Moved (index : Nat) : Prop :=
  ∃ before x after, Between idOf id xs before x after ∧
    ys[min index (xs.length - 1)]? = some x ∧
    ys.eraseIdx (min index (xs.length - 1)) = before ++ after

/-- One more record is at the end. -/
def Appended : Prop := ∃ x, ys = xs ++ [x]

/-- Where identifiers are distinct, a record is the only one with its own. -/
theorem between_of_nodup (hids : (xs.map idOf).Nodup) (before : List β) (x : β) (after : List β)
    (hxs : xs = before ++ x :: after) (hid : idOf x = id) : Between idOf id xs before x after := by
  refine ⟨hxs, hid, fun other hother hsame => ?_⟩
  rw [hxs, List.map_append, List.map_cons, List.nodup_middle, List.nodup_cons, ← List.map_append]
    at hids
  exact hids.1 (List.mem_map.mpr ⟨other, hother, hsame.trans hid.symm⟩)

theorem changed_changeFirst (hids : (xs.map idOf).Nodup) (x : β)
    (hfound : xs.find? (fun x => idOf x = id) = some x) (change : β → β) (same : β → β → Prop)
    (hid : idOf (change x) = idOf x) (hsame : same x (change x)) :
    Changed idOf id xs (changeFirst (fun x => idOf x = id) change xs) same := by
  have hx : idOf x = id := by simpa using List.find?_some hfound
  rcases changeFirst_split _ xs x hfound with ⟨before, after, hxs, -, hchange⟩
  have hplace := between_of_nodup idOf id xs hids before x after hxs hx
  exact ⟨before, x, after, change x, hplace, ⟨hchange change, hid.trans hx, hplace.others⟩, hsame⟩

variable (x : β) (rest : List β) (htaken : takeOut? (fun x => idOf x = id) xs = some (x, rest))

include htaken in
theorem removed_takeOut? (hids : (xs.map idOf).Nodup) : Removed idOf id xs rest := by
  rcases takeOut?_split _ xs x rest htaken with ⟨before, after, hxs, hrest, hx⟩
  exact ⟨before, x, after,
    between_of_nodup idOf id xs hids before x after hxs (of_decide_eq_true hx), hrest⟩

include htaken in
theorem moved_takeOut? (hids : (xs.map idOf).Nodup) (index : Nat) :
    Moved idOf id xs (rest.take index ++ x :: rest.drop index) index := by
  rcases takeOut?_split _ xs x rest htaken with ⟨before, after, hxs, hrest, hx⟩
  -- The rest is shorter by one, so its front ends where the index is cut off.
  have hlength : (rest.take index).length = min index (xs.length - 1) := by
    rw [List.length_take, hxs, hrest, List.length_append, List.length_append, List.length_cons]
    omega
  refine ⟨before, x, after,
    between_of_nodup idOf id xs hids before x after hxs (of_decide_eq_true hx), ?_, ?_⟩
  · rw [← hlength]
    simp
  · rw [← hlength, List.eraseIdx_append_of_length_le (Nat.le_refl _), Nat.sub_self,
      List.eraseIdx_cons_zero, List.take_append_drop, hrest]

end Places

end Document

namespace Command

/-- The name of a command. -/
def word : Command → String
  | addMeasurement _ => "MEASUREMENT_ADD"
  | updateMeasurement _ => "MEASUREMENT_UPDATE"
  | commitSamples .. => "MEASUREMENT_VALUES"
  | deleteMeasurement _ => "MEASUREMENT_DELETE"
  | moveMeasurement .. => "MEASUREMENT_REORDER"
  | addOutput .. => "OUTPUT_ADD"
  | updateOutput .. => "OUTPUT_UPDATE"
  | deleteOutput _ => "OUTPUT_DELETE"
  | setUncertaintyTypes _ => "SET_UNCERTAINTY_TYPES"
  | setGravity .. => "SET_GRAVITY"
  | importQuery _ => "IMPORT"
  | exportQuery => "EXPORT"

section Words

open Json (Value)

theorem word_of_idCommands (entry : String × (RecordId → Command)) (hentry : entry ∈ idCommands)
    (id : RecordId) : entry.1 = (entry.2 id).word := by
  simp only [idCommands, List.mem_cons, List.not_mem_nil, or_false] at hentry
  rcases hentry with rfl | rfl <;> rfl

theorem orUnreadable_eq_ok (name : String) (command? : Option Command) (command : Command)
    (h : orUnreadable name command? = .ok command) : command? = some command := by
  cases command? with
  | none => cases h
  | some read =>
      cases h
      rfl

variable [IdSource]

/-- The payload of a command does not say which command it is. -/
theorem word_of_jsonCommands (entry : String × (Value → Option Command))
    (hentry : entry ∈ jsonCommands) (value : Value) (command : Command)
    (h : entry.2 value = some command) : entry.1 = command.word := by
  simp only [jsonCommands, List.mem_cons, List.not_mem_nil, or_false] at hentry
  rcases hentry with rfl | rfl | rfl | rfl | rfl | rfl | rfl | rfl
  -- The fields are read one after the other, and the command is made of all of them.
  all_goals simp only [ofUpdate?, ofSamples?, ofMove?, ofNewOutput?, ofOutputUpdate?, ofTypes?,
    ofGravity?, Option.bind_eq_bind, Option.bind_eq_some_iff, Option.map_eq_some_iff,
    Option.pure_def, Option.some.injEq] at h
  · rcases h with ⟨new, -, rfl⟩
    rfl
  · rcases h with ⟨update, -, rfl⟩
    rfl
  · rcases h with ⟨fields, -, id, -, input, -, zeroOffset, -, rfl⟩
    rfl
  · rcases h with ⟨fields, -, id, -, index, -, rfl⟩
    rfl
  · rcases h with ⟨fields, -, name, -, displayUnit, -, rfl⟩
    rfl
  · rcases h with ⟨fields, -, id, -, name, -, displayUnit, -, rfl⟩
    rfl
  · rcases h with ⟨fields, -, typeA, -, typeB, -, rfl⟩
    rfl
  · rcases h with ⟨fields, -, gravity, -, latitude, -, rfl⟩
    rfl

/-- A command is read under its own name. -/
theorem word_of_ofParts [Json.Reader] (name payload : String) (command : Command)
    (h : ofParts name payload = .ok command) : name = command.word := by
  -- The tables are looked through first; the payloads of the last two commands are not read.
  rw [ofParts] at h
  split at h
  · next ofJson? hlookup =>
    rcases List.lookup_eq_some_iff.mp hlookup with ⟨before, after, hsplit, -⟩
    have hentry : (name, ofJson?) ∈ jsonCommands := by rw [hsplit]; simp
    rcases Option.bind_eq_some_iff.mp (orUnreadable_eq_ok _ _ _ h) with ⟨value, -, hvalue⟩
    exact word_of_jsonCommands _ hentry value command hvalue
  · split at h
    · next ofId hlookup =>
      rcases List.lookup_eq_some_iff.mp hlookup with ⟨before, after, hsplit, -⟩
      have hentry : (name, ofId) ∈ idCommands := by rw [hsplit]; simp
      rcases Option.map_eq_some_iff.mp (orUnreadable_eq_ok _ _ _ h) with ⟨id, -, rfl⟩
      exact word_of_idCommands _ hentry id
    · split at h
      · next hname =>
        cases h
        exact hname
      · split at h
        · next hname =>
          cases h
          exact hname
        · cases h

/-- A frame is read as the command that it names. -/
theorem word_of_read [Json.Reader] (frame : String) (command : Command) (h : read frame = .ok command) :
    ((Text.cutOnce? ':' frame).getD (frame, "")).1 = command.word :=
  word_of_ofParts _ _ command h

end Words

end Command

/-- The parts of a session. -/
inductive Part where
  | measurements
  | outputs
  | settings
  | uncertaintyTypes
  | constants
  deriving DecidableEq

/-- A part is the same in two sessions. -/
def Part.Agrees (session next : Session) : Part → Prop
  | measurements => next.document.measurements = session.document.measurements
  | outputs => next.document.outputs = session.document.outputs
  | settings => next.document.settings = session.document.settings
  | uncertaintyTypes => next.document.uncertaintyTypes = session.document.uncertaintyTypes
  | constants => next.propagator.constants = session.propagator.constants

namespace Command

/-- The parts of a session that a command may change. -/
def parts : Command → List Part
  | addMeasurement _ | updateMeasurement _ | commitSamples .. | deleteMeasurement _
  | moveMeasurement .. => [.measurements]
  | addOutput .. | updateOutput .. | deleteOutput _ => [.outputs]
  | setUncertaintyTypes _ => [.uncertaintyTypes]
  | setGravity .. => [.settings, .constants]
  | importQuery _ => [.measurements, .outputs]
  | exportQuery => []

open Session (isDirect)

/-- What a command does to the records of a document. -/
def Effect (document next : Document Float) : Command → Prop
  | addMeasurement _ => Document.Appended document.measurements next.measurements
  | updateMeasurement update =>
    Document.Changed Measurement.id update.id document.measurements next.measurements
      fun m m' => isDirect m' = isDirect m
  | commitSamples id .. =>
    Document.Changed Measurement.id id document.measurements next.measurements
      fun m m' => isDirect m' = isDirect m
  | deleteMeasurement id =>
    Document.Removed Measurement.id id document.measurements next.measurements
  | moveMeasurement id index =>
    Document.Moved Measurement.id id document.measurements next.measurements index
  | addOutput .. => Document.Appended document.outputs next.outputs
  | updateOutput id .. =>
    Document.Changed Output.id id document.outputs next.outputs fun _ _ => True
  | deleteOutput id => Document.Removed Output.id id document.outputs next.outputs
  | setUncertaintyTypes _ | setGravity .. | importQuery _ | exportQuery => True

end Command

namespace Session

theorem agrees_withMeasurements (session : Session) (measurements : List (Measurement Float))
    (serial : Nat) (part : Part) (hpart : part ∉ [Part.measurements]) :
    part.Agrees session { session with
      document := { session.document with measurements }, nextSerial := serial } := by
  cases part with
  | measurements => exact absurd List.mem_cons_self hpart
  | _ => rfl

theorem agrees_withOutputs (session : Session) (outputs : List Output) (serial : Nat)
    (part : Part) (hpart : part ∉ [Part.outputs]) :
    part.Agrees session { session with
      document := { session.document with outputs }, nextSerial := serial } := by
  cases part with
  | outputs => exact absurd List.mem_cons_self hpart
  | _ => rfl

/-- A command leaves the parts alone that it does not name. -/
theorem Carried.agrees [QueryCodec] [IdSource] (session : Session) (command : Command) (next : Session)
    (h : Carried session command next) (part : Part) (hpart : part ∉ command.parts) :
    part.Agrees session next := by
  cases h with
  | added | updated | sampled | deleted | moved =>
      exact agrees_withMeasurements session _ _ part hpart
  | outputAdded | outputUpdated | outputDeleted =>
      exact agrees_withOutputs session _ _ part hpart
  | typesSet types =>
      cases part with
      | uncertaintyTypes => exact absurd List.mem_cons_self hpart
      | _ => rfl
  | gravitySet gravity? latitude gravity hgravity hvalid =>
      cases part with
      | settings => exact absurd List.mem_cons_self hpart
      | constants => exact absurd (List.mem_cons_of_mem _ List.mem_cons_self) hpart
      | _ => rfl
  | imported query records hrecords =>
      -- Loading takes over the settings and the types.
      cases part with
      | measurements => exact absurd List.mem_cons_self hpart
      | outputs => exact absurd (List.mem_cons_of_mem _ List.mem_cons_self) hpart
      | _ => rfl

@[simp]
theorem id_changeOutput (name displayUnit : Option String) (output : Output) :
    (changeOutput name displayUnit output).id = output.id := by
  cases name <;> cases displayUnit <;> rfl

/-- What a command does to the records. -/
theorem Carried.effect [QueryCodec] [IdSource] (session : Session) (command : Command) (next : Session)
    (h : Carried session command next)
    (hmeasurements : (session.document.measurements.map Measurement.id).Nodup)
    (houtputs : (session.document.outputs.map Output.id).Nodup) :
    command.Effect session.document next.document := by
  cases h with
  | added new hfree => exact ⟨create (IdSource.serial session.nextSerial) new, rfl⟩
  | updated update m hfound hcount hfree =>
      have hkept := (revised_kept update hcount m).2
      exact Document.changed_changeFirst Measurement.id update.id _ hmeasurements m hfound
        (fun _ => revised update m) _ hkept.id_eq hkept.kind_eq
  | sampled id input zeroOffset m hfound =>
      exact Document.changed_changeFirst Measurement.id id _ hmeasurements _ hfound
        (fun _ => .direct (m.commit (Sample.split input) zeroOffset)) _ rfl rfl
  | deleted id m measurements htaken =>
      exact Document.removed_takeOut? _ id _ m measurements htaken hmeasurements
  | moved id index m measurements htaken =>
      exact Document.moved_takeOut? _ id _ m measurements htaken hmeasurements index
  | outputAdded name displayUnit =>
      exact ⟨.make (IdSource.serial session.nextSerial) name displayUnit, rfl⟩
  | outputUpdated id name displayUnit output hfound =>
      exact Document.changed_changeFirst Output.id id _ houtputs output hfound _ _
        (id_changeOutput name displayUnit output) trivial
  | outputDeleted id output outputs htaken =>
      exact Document.removed_takeOut? _ id _ output outputs htaken houtputs
  | typesSet | gravitySet | imported => trivial

section Answers

variable [IdSource]

theorem onward_evaluateOutput (document : Document Float) (output : Output)
    (p : SessionPropagator) : p.Onward ((evaluateOutput document output).run p).2 := by
  rw [run_evaluateOutput]
  exact output.evaluate_onwards document p

theorem onward_evaluateAll (document : Document Float) (outputs : List Output) :
    ∀ p : SessionPropagator, p.Onward ((outputs.mapM (evaluateOutput document)).run p).2 := by
  induction outputs with
  | nil => exact fun p => Propagator.Onward.refl p
  | cons output rest ih =>
      intro p
      rw [List.mapM_cons, run_followed, run_followed]
      exact (onward_evaluateOutput document output p).trans _ _ _ (ih _)

/-- The results change neither the document nor the constants. -/
theorem onward_snapshot (session : Session) :
    session.snapshot.2.document = session.document ∧
      session.propagator.Onward session.snapshot.2.propagator :=
  ⟨rfl, onward_evaluateAll session.document session.document.outputs session.propagator⟩

theorem Carried.store_eq [QueryCodec] (session : Session) (command : Command) (next : Session)
    (h : Carried session command next) : next.propagator.store = session.propagator.store := by
  cases h <;> rfl

/-- A frame that is answered without an error is one command, under its name. It changes
    only the parts that the command may change, and in these the records as the command
    says. What the cache holds stays there. An export changes nothing at all. -/
theorem handle_effect [QueryCodec] [Json.Reader] (session : Session) (frame : String)
    (hmeasurements : (session.document.measurements.map Measurement.id).Nodup)
    (houtputs : (session.document.outputs.map Output.id).Nodup)
    (hanswered : ∀ payload, .error payload ∉ (session.handle frame).1) :
    ∃ command, Command.read frame = .ok command ∧
      ((Text.cutOnce? ':' frame).getD (frame, "")).1 = command.word ∧
      (∀ part, part ∉ command.parts → part.Agrees session (session.handle frame).2) ∧
      command.Effect session.document (session.handle frame).2.document ∧
      session.propagator.store.StaysIn (session.handle frame).2.propagator.store ∧
      (command = .exportQuery → (session.handle frame).2 = session) := by
  rcases handle_cases session frame with
    ⟨e, hhandle⟩ | ⟨hread, hhandle⟩ | ⟨command, next, hread, hcarried, hhandle⟩
  · rw [hhandle] at hanswered
    exact absurd List.mem_cons_self (hanswered _)
  · rw [hhandle]
    refine ⟨_, hread, Command.word_of_read frame _ hread, fun part _ => ?_, trivial,
      DerivativeCache.StaysIn.refl _, fun _ => rfl⟩
    cases part <;> rfl
  · -- The command makes its changes first, and the answer only moves the propagator onward.
    rcases onward_snapshot next with ⟨hdocument, honward⟩
    rw [hhandle]
    refine ⟨command, hread, Command.word_of_read frame _ hread, fun part hpart => ?_, ?_, ?_, ?_⟩
    · have hagrees := hcarried.agrees session command next part hpart
      cases part with
      | constants => exact honward.constants_eq.trans hagrees
      | _ => exact hagrees
    · rw [hdocument]
      exact hcarried.effect session command next hmeasurements houtputs
    · rw [← hcarried.store_eq]
      exact honward.stays
    · rintro rfl
      cases hcarried

end Answers

section Example

open scoped Standard

/-- The frame that puts the length behind everything else. -/
def lengthLast : String :=
  "MEASUREMENT_REORDER:\x7b\"id\":\"00000000-0000-4000-8000-000000000001\",\"index\":7\x7d"

/-- The length is moved to the end, and nothing else changes. -/
theorem handle_effect_lengthLast :
    let session := (start 9.8).after productMeasured
    let next := (session.handle lengthLast).2
    next.document.measurements.map (fun m => m.name.text) = ["t", "v", "l"] ∧
      (∃ id index, Document.Moved Measurement.id id session.document.measurements
        next.document.measurements index) ∧
      ∀ part : Part, part ≠ .measurements → part.Agrees session next := by
  have hrun : (((start 9.8).after productMeasured).document.outputs.map Output.id).Nodup ∧
      (((start 9.8).after productMeasured).handle lengthLast).1.any isError = false ∧
      (((start 9.8).after productMeasured).handle lengthLast).2.document.measurements.map
        (fun m => m.name.text) = ["t", "v", "l"] := by
    decide +kernel
  have hword : ((Text.cutOnce? ':' lengthLast).getD (lengthLast, "")).1 = "MEASUREMENT_REORDER" := by
    decide +kernel
  rcases hrun with ⟨houtputs, hanswered, hnames⟩
  rcases handle_effect ((start 9.8).after productMeasured) lengthLast
    (numbered_after 9.8 productMeasured).distinct houtputs
    (fun payload hmem => List.any_eq_false.mp hanswered _ hmem rfl) with
    ⟨command, -, hname, hparts, heffect, -, -⟩
  rw [hword] at hname
  cases command with
  | moveMeasurement id index =>
      refine ⟨hnames, ⟨id, index, heffect⟩, fun part hpart => hparts part ?_⟩
      rw [Command.parts, List.mem_singleton]
      exact hpart
  | _ => simp [Command.word] at hname

end Example

end Session

end Metrology
