import Mathlib.Data.List.Induction
import Metrology.Proofs.Document.Place
import Metrology.Proofs.Session.Atomicity

/-!
# Histories of a session

What one frame does to a session, and what holds after any number of them. A
frame is rejected, is answered with the query of the document, or carries out a
command; only then does the session change, and `Carried` says how, one case for
each command. Whatever is to hold of every session that frames lead to is shown
for the empty session and for these cases.

An update of a measurement renames it in the document first, and then looks for
it again to change the rest. Both happen at one place, so they are one change of
one measurement here, `Session.revised`.

## Main definitions

* `Session.revised`: A measurement after an update.
* `Session.Kept`: What a measurement keeps through every change of it.
* `Session.Carried`: What a command makes of a session.
* `Session.after`: The session after a list of frames.

## Theorems

* `Session.carried_of_apply`: What a command that succeeds has done.
* `Session.handle_cases`, `Session.handle_document`, `Session.handle_import`: What a
  frame does.
* `Session.after_induction`: What every frame keeps holds after any frames.
-/

namespace Metrology.Session

section Updates

/-- A measurement after an update: its name first, then the rest. -/
def revised (update : MeasurementUpdate) (m : Measurement Float) : Measurement Float :=
  ((updateContents update).run
    (update.name.elim m fun name => DocumentEdit.renamed name m)).2

/-- The entries of a direct measurement stay in their slots, and nothing else of it
    changes. -/
theorem run_putTypeB_direct (entries : List (TypeBEntry × Nat))
    (hslots : ∀ entry ∈ entries, entry.2 < maxTypeB) :
    ∀ m : DirectMeasurement Float, ∃ typeB, (putTypeB m entries).run (.direct m) =
      (.ok ⟨⟩, .direct { m with typeB }) ∧ (m.typeB.length = maxTypeB → typeB.length = maxTypeB) := by
  induction entries with
  | nil => exact fun m => ⟨m.typeB, rfl, fun h => h⟩
  | cons entry rest ih =>
      intro m
      rcases entry with ⟨entry, index⟩
      have hindex : index < maxTypeB := hslots (entry, index) List.mem_cons_self
      have hrest := fun other hother => hslots other (List.mem_cons_of_mem _ hother)
      rcases MeasurementEdit.setTypeB_of_lt m index entry hindex with ⟨next, hslot, hkept⟩
      rcases ih hrest { m with typeB := next } with ⟨typeB, hrun, hlength⟩
      refine ⟨typeB, ?_, fun hfull => hlength (hkept hfull)⟩
      rw [putTypeB, hslot]
      exact hrun

/-- Whether a measurement has all the slots for its type-B entries. -/
def HasSlots : Measurement Float → Prop
  | .direct m => m.typeB.length = maxTypeB
  | .composite _ => True

def isDirect : Measurement Float → Bool
  | .direct _ => true
  | .composite _ => false

/-- What a measurement keeps through every change of it. -/
structure Kept (m m' : Measurement Float) : Prop where
  id_eq : m'.id = m.id
  kind_eq : isDirect m' = isDirect m
  slots : HasSlots m → HasSlots m'

theorem Kept.trans (m m' m'' : Measurement Float) (h : Kept m m') (h' : Kept m' m'') :
    Kept m m'' :=
  ⟨h'.id_eq.trans h.id_eq, h'.kind_eq.trans h.kind_eq, fun hslots => h'.slots (h.slots hslots)⟩

/-- What an update says beside the name does not change the name. -/
theorem run_updateContents (update : MeasurementUpdate)
    (hcount : (update.typeB.getD []).length ≤ maxTypeB) (m : Measurement Float) :
    ∃ m', (updateContents update).run m = (.ok ⟨⟩, m') ∧ m'.name = m.name ∧ Kept m m' := by
  have hslots : ∀ entry ∈ (update.typeB.getD []).zipIdx, entry.2 < maxTypeB := by
    intro entry hentry
    have := List.snd_lt_of_mem_zipIdx hentry
    omega
  rw [updateContents, Outcome.run_bind, Outcome.run_get]
  cases m with
  | direct m =>
      rcases run_putTypeB_direct _ hslots (update.unit.elim m m.setUnit) with
        ⟨typeB, hrun, hlength⟩
      refine ⟨_, hrun, ?_, ?_, rfl, fun hfull => hlength ?_⟩
      · cases update.unit <;> rfl
      · cases update.unit <;> rfl
      · cases update.unit <;> exact hfull
  | composite m => exact ⟨_, rfl, rfl, rfl, rfl, fun h => h⟩

theorem renamed_kept (name : String) (m : Measurement Float) :
    (DocumentEdit.renamed name m).name = ⟨name⟩ ∧ Kept m (DocumentEdit.renamed name m) := by
  cases m with
  | composite m => exact ⟨rfl, rfl, rfl, fun h => h⟩
  | direct m =>
      change (m.rename name).name = ⟨name⟩ ∧ Kept (.direct m) (.direct (m.rename name))
      rw [DirectMeasurement.rename]
      split
      · split <;> exact ⟨rfl, rfl, rfl, fun h => h⟩
      · exact ⟨rfl, rfl, rfl, fun h => h⟩

/-- What an update keeps of a measurement. -/
theorem revised_kept (update : MeasurementUpdate)
    (hcount : (update.typeB.getD []).length ≤ maxTypeB) (m : Measurement Float) :
    (revised update m).name = (update.name.map Name.mk).getD m.name ∧ Kept m (revised update m) := by
  rw [revised]
  cases update.name with
  | none =>
      rcases run_updateContents update hcount m with ⟨m', hrun, hname, hkept⟩
      rw [Option.elim_none, hrun]
      exact ⟨hname, hkept⟩
  | some name =>
      rcases renamed_kept name m with ⟨hname', hkept'⟩
      rcases run_updateContents update hcount (DocumentEdit.renamed name m) with
        ⟨m', hrun, hname, hkept⟩
      rw [Option.elim_some, hrun]
      exact ⟨hname.trans hname', hkept'.trans _ _ _ hkept⟩

end Updates

section Commands

/-- What a command that is carried out makes of a session. The query of a document
    changes nothing and is not among them. -/
inductive Carried [QueryCodec] [IdSource] (session : Session) : Command → Session → Prop
  | added (new : NewMeasurement)
      (hfree : session.document.isNameTaken (create (IdSource.serial session.nextSerial) new).name.text
        none = false) :
      Carried session (.addMeasurement new) { session with
        document := { session.document with
          measurements := session.document.measurements ++
            [create (IdSource.serial session.nextSerial) new] }
        nextSerial := session.nextSerial + 1 }
  | updated (update : MeasurementUpdate) (m : Measurement Float)
      (hfound : session.document.measurement? update.id = some m)
      (hcount : (update.typeB.getD []).length ≤ maxTypeB)
      (hfree : ∀ name, update.name = some name →
        session.document.isNameTaken name (some update.id) = false) :
      Carried session (.updateMeasurement update) { session with
        document := session.document.putMeasurement update.id (revised update m) }
  | sampled (id : RecordId) (input : String) (zeroOffset : Option Float)
      (m : DirectMeasurement Float)
      (hfound : session.document.measurement? id = some (.direct m)) :
      Carried session (.commitSamples id input zeroOffset) { session with
        document := session.document.putMeasurement id
          (.direct (m.commit (Sample.split input) zeroOffset)) }
  | deleted (id : RecordId) (m : Measurement Float) (measurements : List (Measurement Float))
      (htaken : Document.takeOut? (fun m : Measurement Float => m.id = id)
        session.document.measurements = some (m, measurements)) :
      Carried session (.deleteMeasurement id)
        { session with document := { session.document with measurements } }
  | moved (id : RecordId) (index : Nat) (m : Measurement Float)
      (measurements : List (Measurement Float))
      (htaken : Document.takeOut? (fun m : Measurement Float => m.id = id)
        session.document.measurements = some (m, measurements)) :
      Carried session (.moveMeasurement id index) { session with
        document := { session.document with
          measurements := measurements.take index ++ m :: measurements.drop index } }
  | outputAdded (name : String) (displayUnit : Option String) :
      Carried session (.addOutput name displayUnit) { session with
        document := { session.document with
          outputs := session.document.outputs ++
            [.make (IdSource.serial session.nextSerial) name displayUnit] }
        nextSerial := session.nextSerial + 1 }
  | outputUpdated (id : RecordId) (name displayUnit : Option String) (output : Output)
      (hfound : session.document.output? id = some output) :
      Carried session (.updateOutput id name displayUnit) { session with
        document := { session.document with
          outputs := Document.changeFirst (fun output => output.id = id)
            (changeOutput name displayUnit) session.document.outputs } }
  | outputDeleted (id : RecordId) (output : Output) (outputs : List Output)
      (htaken : Document.takeOut? (fun output : Output => output.id = id)
        session.document.outputs = some (output, outputs)) :
      Carried session (.deleteOutput id)
        { session with document := { session.document with outputs } }
  | typesSet (types : UncertaintyTypes) :
      Carried session (.setUncertaintyTypes types)
        { session with document := { session.document with uncertaintyTypes := types } }
  | gravitySet (gravity? latitude : Option Float) (gravity : Float)
      (hgravity : gravity?.or (latitude.map Settings.gravityAtLatitude) = some gravity)
      (hvalid : (gravity.isFinite && 0.0 < gravity) = true) :
      Carried session (.setGravity gravity? latitude) { session with
        document := { session.document with settings := ⟨gravity⟩ }
        propagator := { session.propagator with
          constants := (⟨gravity⟩ : Settings Float).constants } }
  | imported (query : String) (records : List Record)
      (hrecords : Record.decodeAll query = .ok records) :
      Carried session (.importQuery query) { session with
        document := session.document.load (fun n => IdSource.serial (session.nextSerial + n)) records
        nextSerial := session.nextSerial + records.length }

/-- What an edit of the document that succeeds makes of a session. -/
theorem onDocument_ok {β : Type} (edit : DocumentEdit Float β) (session next : Session) (b : β)
    (h : (onDocument edit).run session = (.ok b, next)) :
    edit.run session.document = (.ok b, next.document) ∧
      next = { session with document := next.document } := by
  rw [run_onDocument, Prod.mk.injEq, Outcome.mapError_eq_ok] at h
  rcases h with ⟨hok, rfl⟩
  exact ⟨Prod.ext hok rfl, rfl⟩

/-- What an edit of a measurement that succeeds makes of a session. -/
theorem onMeasurement_ok {β : Type} (id : RecordId)
    (edit : ExceptT CommandError (StateM (Measurement Float)) β) (session next : Session) (b : β)
    (h : (onMeasurement id edit).run session = (.ok b, next)) :
    ∃ m m', session.document.measurement? id = some m ∧ edit.run m = (.ok b, m') ∧
      next = { session with document := session.document.putMeasurement id m' } := by
  rw [run_onMeasurement] at h
  cases hfound : session.document.measurement? id with
  | none =>
      rw [hfound] at h
      cases h
  | some m =>
      rw [hfound] at h
      simp only at h
      rw [Prod.mk.injEq] at h
      exact ⟨m, (edit.run m).2, rfl, Prod.ext h.1 rfl, h.2.symm⟩

/-- What a command with a reply has done. -/
theorem ok_of_reply {β : Type} (x : SessionEdit β) (reply reply' : Reply) (session next : Session)
    (h : (x >>= fun _ => (pure reply : SessionEdit Reply)).run session = (.ok reply', next)) :
    reply' = reply ∧ ∃ b, x.run session = (.ok b, next) := by
  rw [Outcome.run_bind] at h
  rcases hrun : x.run session with ⟨e | b, middle⟩
  · rw [hrun] at h
    cases h
  · rw [hrun] at h
    cases h
    exact ⟨rfl, b, rfl⟩

/-- A measurement that has been renamed had a free name. -/
theorem renameMeasurement_ok (id : RecordId) (name : String) (document next : Document Float)
    (h : (DocumentEdit.renameMeasurement id name).run document = (.ok ⟨⟩, next)) :
    document.isNameTaken name (some id) = false ∧ next = { document with
      measurements := Document.changeFirst (fun m => m.id = id) (DocumentEdit.renamed name)
        document.measurements } := by
  rw [DocumentEdit.run_renameMeasurement, DocumentEdit.run_editMeasurement] at h
  by_cases hfree : document.isNameTaken name (some id) = true
  · rw [if_pos hfree] at h
    cases h
  · rw [if_neg hfree] at h
    by_cases hfound : (document.measurement? id).isNone = true
    · rw [if_pos hfound] at h
      cases h
    · rw [if_neg hfound, Prod.mk.injEq] at h
      exact ⟨Bool.eq_false_iff.mpr hfree, h.2.symm⟩

/-- A renamed measurement is found where it was. -/
theorem picks_renamed (id : RecordId) (name : String) (m : Measurement Float)
    (h : decide (m.id = id) = true) : decide ((DocumentEdit.renamed name m).id = id) = true :=
  decide_eq_true ((renamed_kept name m).2.id_eq.trans (of_decide_eq_true h))

/-- Putting a measurement where one has been renamed is putting it where that one
    was. -/
theorem putMeasurement_renamed (document : Document Float) (id : RecordId) (name : String)
    (m : Measurement Float) :
    ({ document with
      measurements := Document.changeFirst (fun m => m.id = id) (DocumentEdit.renamed name)
        document.measurements } : Document Float).putMeasurement id m =
      document.putMeasurement id m := by
  rw [Document.putMeasurement, Document.putMeasurement]
  simp only
  rw [Document.changeFirst_changeFirst _ _ _ (picks_renamed id name)]
  rfl

variable [QueryCodec] [IdSource]

theorem carried_addMeasurement (new : NewMeasurement) (session next : Session)
    (h : (addMeasurement new).run session = (.ok ⟨⟩, next)) :
    Carried session (.addMeasurement new) next := by
  rw [addMeasurement, Outcome.run_bind, Outcome.run_get] at h
  simp only at h
  rw [Outcome.run_bind, run_onDocument, DocumentEdit.run_addMeasurement] at h
  split at h
  · next hrun =>
    split at hrun
    · cases hrun
    · next hfree =>
      cases hrun
      cases h
      exact .added new (Bool.eq_false_iff.mpr hfree)
  · cases h

/-- An update is one change of the measurement. -/
theorem carried_updateMeasurement (update : MeasurementUpdate) (session next : Session)
    (h : (updateMeasurement update).run session = (.ok ⟨⟩, next)) :
    Carried session (.updateMeasurement update) next := by
  rw [updateMeasurement, Outcome.run_bind, Outcome.run_get] at h
  simp only at h
  split at h
  · cases h
  · split at h
    · cases h
    · next hcount =>
      rw [Nat.not_lt] at hcount
      cases hname : update.name with
      | none =>
          rw [hname] at h
          rcases onMeasurement_ok _ _ _ _ _ h with ⟨m, m', hfound, hrun, rfl⟩
          have hrevised : m' = revised update m := by
            rw [revised, hname, Option.elim_none, hrun]
          rw [hrevised]
          exact .updated update m hfound hcount fun name hsome => by simp [hname] at hsome
      | some name =>
          rw [hname] at h
          change (onDocument (.renameMeasurement update.id name) >>= fun _ =>
            onMeasurement update.id (updateContents update)).run session = _ at h
          rw [Outcome.run_bind] at h
          split at h
          · next a middle hrename =>
            rcases onDocument_ok _ _ _ _ hrename with ⟨hedit, hmiddle⟩
            rcases renameMeasurement_ok _ _ _ _ hedit with ⟨hfree, hrenamed⟩
            rcases onMeasurement_ok _ _ _ _ _ h with ⟨m', m'', hfound, hrun, rfl⟩
            -- What is found under the identifier is what has been renamed.
            rw [hrenamed, Document.measurement?,
              Document.find?_changeFirst _ _ (picks_renamed update.id name)] at hfound
            rcases Option.map_eq_some_iff.mp hfound with ⟨m, hm, rfl⟩
            have hrevised : m'' = revised update m := by
              rw [revised, hname, Option.elim_some, hrun]
            rw [hmiddle, hrenamed, hrevised]
            simp only
            rw [putMeasurement_renamed]
            refine .updated update m hm hcount fun other hother => ?_
            rw [hname, Option.some.injEq] at hother
            rw [← hother]
            exact hfree
          · cases h

theorem carried_commitSamples (id : RecordId) (input : String) (zeroOffset : Option Float)
    (session next : Session) (h : (commitSamples id input zeroOffset).run session = (.ok ⟨⟩, next)) :
    Carried session (.commitSamples id input zeroOffset) next := by
  rcases onMeasurement_ok _ _ _ _ _ h with ⟨m, m', hfound, hrun, rfl⟩
  rw [Outcome.run_bind, Outcome.run_get] at hrun
  cases m with
  | direct m =>
      cases hrun
      exact .sampled id input zeroOffset m hfound
  | composite m => cases hrun

theorem carried_setGravity (gravity latitude : Option Float) (session next : Session)
    (h : (setGravity gravity latitude).run session = (.ok ⟨⟩, next)) :
    Carried session (.setGravity gravity latitude) next := by
  rw [setGravity] at h
  split at h
  · cases h
  · next value hvalue =>
    split at h
    · cases h
    · next hvalid =>
      cases h
      exact .gravitySet gravity latitude value hvalue (by simpa using hvalid)

theorem carried_importQuery (query : String) (session next : Session)
    (h : (importQuery query).run session = (.ok ⟨⟩, next)) :
    Carried session (.importQuery query) next := by
  rw [importQuery] at h
  split at h
  · cases h
  · next records hrecords =>
    cases h
    exact .imported query records hrecords

/-- What a command that succeeds has done: it has answered with the query and changed
    nothing, or it is carried out. -/
theorem carried_of_apply (command : Command) (session next : Session) (reply : Reply)
    (h : (apply command).run session = (.ok reply, next)) :
    (command = .exportQuery ∧ reply = .query session.document.toQuery ∧ next = session) ∨
      (reply = .refresh ∧ Carried session command next) := by
  cases command with
  | addMeasurement new =>
      rcases ok_of_reply _ _ _ _ _ h with ⟨hreply, ⟨⟩, hrun⟩
      exact .inr ⟨hreply, carried_addMeasurement new session next hrun⟩
  | updateMeasurement update =>
      rcases ok_of_reply _ _ _ _ _ h with ⟨hreply, ⟨⟩, hrun⟩
      exact .inr ⟨hreply, carried_updateMeasurement update session next hrun⟩
  | commitSamples id input zeroOffset =>
      rcases ok_of_reply _ _ _ _ _ h with ⟨hreply, ⟨⟩, hrun⟩
      exact .inr ⟨hreply, carried_commitSamples id input zeroOffset session next hrun⟩
  | deleteMeasurement id =>
      rcases ok_of_reply _ _ _ _ _ h with ⟨hreply, m, hrun⟩
      rcases onDocument_ok _ _ _ _ hrun with ⟨hedit, hnext⟩
      rw [DocumentEdit.run_removeMeasurement] at hedit
      split at hedit
      · cases hedit
      · next m' measurements htaken =>
        rw [Prod.mk.injEq] at hedit
        rw [hnext, ← hedit.2]
        exact .inr ⟨hreply, .deleted id m' measurements htaken⟩
  | moveMeasurement id index =>
      rcases ok_of_reply _ _ _ _ _ h with ⟨hreply, ⟨⟩, hrun⟩
      rcases onDocument_ok _ _ _ _ hrun with ⟨hedit, hnext⟩
      rw [DocumentEdit.run_moveMeasurement, DocumentEdit.run_removeMeasurement] at hedit
      cases htaken : Document.takeOut? (fun m : Measurement Float => m.id = id)
          session.document.measurements with
      | none =>
          rw [htaken] at hedit
          cases hedit
      | some taken =>
          rcases taken with ⟨m, measurements⟩
          rw [htaken, Prod.mk.injEq] at hedit
          rw [hnext, ← hedit.2]
          exact .inr ⟨hreply, .moved id index m measurements htaken⟩
  | addOutput name displayUnit =>
      cases h
      exact .inr ⟨rfl, .outputAdded name displayUnit⟩
  | updateOutput id name displayUnit =>
      rcases ok_of_reply _ _ _ _ _ h with ⟨hreply, ⟨⟩, hrun⟩
      rcases onDocument_ok _ _ _ _ hrun with ⟨hedit, hnext⟩
      rw [DocumentEdit.run_editOutput] at hedit
      cases hfound : session.document.output? id with
      | none =>
          rw [hfound] at hedit
          cases hedit
      | some output =>
          rw [hfound, if_neg (by simp), Prod.mk.injEq] at hedit
          rw [hnext, ← hedit.2]
          exact .inr ⟨hreply, .outputUpdated id name displayUnit output hfound⟩
  | deleteOutput id =>
      rcases ok_of_reply _ _ _ _ _ h with ⟨hreply, output, hrun⟩
      rcases onDocument_ok _ _ _ _ hrun with ⟨hedit, hnext⟩
      rw [DocumentEdit.run_removeOutput] at hedit
      split at hedit
      · cases hedit
      · next output' outputs htaken =>
        rw [Prod.mk.injEq] at hedit
        rw [hnext, ← hedit.2]
        exact .inr ⟨hreply, .outputDeleted id output' outputs htaken⟩
  | setUncertaintyTypes types =>
      cases h
      exact .inr ⟨rfl, .typesSet types⟩
  | setGravity gravity latitude =>
      rcases ok_of_reply _ _ _ _ _ h with ⟨hreply, ⟨⟩, hrun⟩
      exact .inr ⟨hreply, carried_setGravity gravity latitude session next hrun⟩
  | importQuery query =>
      rcases ok_of_reply _ _ _ _ _ h with ⟨hreply, ⟨⟩, hrun⟩
      exact .inr ⟨hreply, carried_importQuery query session next hrun⟩
  | exportQuery =>
      cases h
      exact .inl ⟨rfl, rfl, rfl⟩

end Commands

section Frames

variable [QueryCodec] [Json.Reader] [IdSource]

/-- What a frame does: it is rejected, asks for the query, or carries out a
    command. -/
theorem handle_cases (session : Session) (frame : String) :
    (∃ e, session.handle frame = ([.ofError e], session)) ∨
      (Command.read frame = .ok .exportQuery ∧
        session.handle frame = ([.query session.document.toQuery], session)) ∨
      ∃ command next, Command.read frame = .ok command ∧ Carried session command next ∧
        session.handle frame = next.snapshot := by
  rw [handle]
  cases hread : Command.read frame with
  | error e => exact .inl ⟨e, rfl⟩
  | ok command =>
      simp only
      rcases hrun : (apply command).run session with ⟨e | reply, next⟩
      · have hsame := apply_atomic command session e next hrun
        exact .inl ⟨e, by rw [hsame]⟩
      · rcases carried_of_apply command session next reply hrun with
          ⟨rfl, rfl, rfl⟩ | ⟨rfl, hcarried⟩
        · exact .inr (.inl ⟨rfl, rfl⟩)
        · exact .inr (.inr ⟨command, next, rfl, hcarried, rfl⟩)

/-- The import of a query that can be read is carried out. -/
theorem handle_import (session : Session) (frame query : String) (records : List Record)
    (hread : Command.read frame = .ok (.importQuery query))
    (hrecords : Record.decodeAll query = .ok records) :
    session.handle frame = snapshot { session with
      document := session.document.load (fun n => IdSource.serial (session.nextSerial + n)) records
      nextSerial := session.nextSerial + records.length } := by
  have hrun : (apply (.importQuery query)).run session = (.ok .refresh, { session with
      document := session.document.load (fun n => IdSource.serial (session.nextSerial + n)) records
      nextSerial := session.nextSerial + records.length }) := by
    rw [apply, Outcome.run_bind, importQuery, hrecords]
    rfl
  rw [handle, hread]
  simp only
  rw [hrun]

/-- The session after a list of frames. -/
def after (session : Session) (frames : List String) : Session :=
  frames.foldl (fun session frame => (session.handle frame).2) session

@[simp]
theorem after_nil (session : Session) : session.after [] = session := rfl

@[simp]
theorem after_concat (session : Session) (frames : List String) (frame : String) :
    session.after (frames ++ [frame]) = ((session.after frames).handle frame).2 := by
  rw [after, List.foldl_append]
  rfl

/-- What every frame keeps holds after any frames. -/
theorem after_induction (holds : Session → Prop) (session : Session) (hstart : holds session)
    (hstep : ∀ session frame, holds session → holds (session.handle frame).2)
    (frames : List String) : holds (session.after frames) := by
  induction frames using List.reverseRecOn with
  | nil => exact hstart
  | append_singleton frames frame ih =>
      rw [after_concat]
      exact hstep _ frame ih

/-- What a frame does to the document and the next number: nothing, or what the
    command does. -/
theorem handle_document (session : Session) (frame : String) :
    ((session.handle frame).2.document = session.document ∧
        (session.handle frame).2.nextSerial = session.nextSerial) ∨
      ∃ command next, Command.read frame = .ok command ∧ Carried session command next ∧
        (session.handle frame).2.document = next.document ∧
        (session.handle frame).2.nextSerial = next.nextSerial := by
  rcases handle_cases session frame with
    ⟨e, hhandle⟩ | ⟨-, hhandle⟩ | ⟨command, next, hread, hcarried, hhandle⟩
  · exact .inl (hhandle.symm ▸ ⟨rfl, rfl⟩)
  · exact .inl (hhandle.symm ▸ ⟨rfl, rfl⟩)
  · exact .inr ⟨command, next, hread, hcarried, hhandle.symm ▸ ⟨rfl, rfl⟩⟩

/-- What holds of the document and the next number, and is kept by every command,
    is kept by every frame. -/
theorem handle_keeps (holds : Document Float → Nat → Prop)
    (hcarried : ∀ session command next, Carried session command next →
      holds session.document session.nextSerial → holds next.document next.nextSerial)
    (session : Session) (frame : String) (h : holds session.document session.nextSerial) :
    holds (session.handle frame).2.document (session.handle frame).2.nextSerial := by
  rcases handle_document session frame with
    ⟨hdocument, hserial⟩ | ⟨command, next, -, hnext, hdocument, hserial⟩
  · rw [hdocument, hserial]
    exact h
  · rw [hdocument, hserial]
    exact hcarried session command next hnext h

end Frames

end Metrology.Session
