import Metrology.Proofs.Document.Edit
import Metrology.Proofs.Measurement.Edits
import Metrology.Session.Basic
import Metrology.Standard

/-!
# Rejected commands

A command that is answered by an error leaves the session as it was. Nothing is
undone for that: a session is edited in place, and every command does all its
checks before its first change. For most commands this is the order in which
they are written. The update of a measurement is the one that checks again
after a change: it renames first, then looks for the measurement again and puts
the type-B entries into their slots one by one. Neither can fail then. A renamed
measurement keeps its identifier, and the entries were counted before, so each
of them has a slot.

## Main definitions

* `Session.NeverFails`: A computation without failures.

## Theorems

* `Session.putTypeB_neverFails`: Counted entries have slots.
* `Session.onMeasurement_neverFails`: A measurement that is there can be edited.
* `Session.rename_then_contents_atomic`: After a change of the name nothing fails.
* `Session.updateMeasurement_atomic`: A failed update has changed nothing.
* `Session.apply_atomic`: No failed command has changed anything.
* `Session.rejected_unchanged`: A frame answered by an error changes nothing.
-/

namespace Metrology.Session

variable {ε s α β : Type}

open Outcome (Atomic)

/-- A computation without failures, from one state. -/
def NeverFails (x : ExceptT ε (StateM s) α) (state : s) : Prop :=
  ∃ a next, x.run state = (.ok a, next)

section Parts

/-- The edit of a document inside of a session. -/
@[simp]
theorem run_onDocument (edit : DocumentEdit Float β) (session : Session) :
    (onDocument edit).run session =
      ((edit.run session.document).1.mapError .document,
        { session with document := (edit.run session.document).2 }) :=
  rfl

/-- The edit of a measurement inside of a session. -/
theorem run_onMeasurement (id : RecordId)
    (edit : ExceptT CommandError (StateM (Measurement Float)) β) (session : Session) :
    (onMeasurement id edit).run session =
      match session.document.measurement? id with
      | none => (.error (.document (.notFound id)), session)
      | some m => ((edit.run m).1,
          { session with document := session.document.putMeasurement id (edit.run m).2 }) := by
  rw [onMeasurement]
  change (match session.document.measurement? id with
    | none => _
    | some m => _ : Except CommandError β × Session) = _
  cases session.document.measurement? id <;> rfl

theorem onDocument_atomic (edit : DocumentEdit Float β) (h : Atomic edit) :
    Atomic (onDocument edit) := by
  intro session e next hrun
  rw [run_onDocument, Prod.mk.injEq] at hrun
  rcases hedit : edit.run session.document with ⟨cause | answer, document⟩
  · rw [hedit] at hrun
    rw [← hrun.2, h session.document cause document hedit]
  · rw [hedit] at hrun
    exact absurd hrun.1 (fun hok => by cases hok)

/-- A measurement that is there can be edited. -/
theorem onMeasurement_neverFails (id : RecordId)
    (edit : ExceptT CommandError (StateM (Measurement Float)) β) (session : Session)
    (hfound : (session.document.measurement? id).isSome = true) (hedit : ∀ m, NeverFails edit m) :
    NeverFails (onMeasurement id edit) session := by
  rcases Option.isSome_iff_exists.mp hfound with ⟨m, hm⟩
  rcases hedit m with ⟨answer, changed, hrun⟩
  rw [NeverFails, run_onMeasurement, hm]
  simp only
  rw [hrun]
  exact ⟨answer, _, rfl⟩

end Parts

section Updates

/-- Entries below the number of slots have slots. -/
theorem putTypeB_neverFails (entries : List (TypeBEntry × Nat))
    (hslots : ∀ entry ∈ entries, entry.2 < maxTypeB) :
    ∀ (m : DirectMeasurement Float) (state : Measurement Float),
      NeverFails (putTypeB m entries) state := by
  induction entries with
  | nil => exact fun m state => ⟨⟨⟩, state, rfl⟩
  | cons entry rest ih =>
      intro m state
      rcases entry with ⟨entry, index⟩
      have hindex : index < maxTypeB := hslots (entry, index) List.mem_cons_self
      rcases MeasurementEdit.setTypeB_of_lt m index entry hindex with ⟨typeB, hslot, -⟩
      rw [putTypeB, hslot]
      exact ih (fun other hother => hslots other (List.mem_cons_of_mem _ hother)) _ _

/-- What an update says beside the name can be done, if not too many entries are
    given. -/
theorem updateContents_neverFails (update : MeasurementUpdate)
    (hcount : (update.typeB.getD []).length ≤ maxTypeB) (m : Measurement Float) :
    NeverFails (updateContents update) m := by
  -- An entry goes into the slot of its position, which is below the count.
  have hslots : ∀ entry ∈ (update.typeB.getD []).zipIdx, entry.2 < maxTypeB := by
    intro entry hentry
    have := List.snd_lt_of_mem_zipIdx hentry
    omega
  rw [NeverFails, updateContents, Outcome.run_bind, Outcome.run_get]
  cases m with
  | direct m => exact putTypeB_neverFails _ hslots _ _
  | composite m => exact ⟨⟨⟩, _, rfl⟩

/-- What is left of an update when the name has been changed. -/
theorem updateContents_after_rename (update : MeasurementUpdate)
    (hcount : (update.typeB.getD []).length ≤ maxTypeB) (session : Session)
    (hfound : (session.document.measurement? update.id).isSome = true) (e : CommandError)
    (last : Session) :
    (onMeasurement update.id (updateContents update)).run session ≠ (.error e, last) := by
  rcases onMeasurement_neverFails update.id (updateContents update) session hfound
    (updateContents_neverFails update hcount) with ⟨answer, next, hrun⟩
  rw [hrun]
  intro h
  cases h

/-- A change of the name with what follows it: once the name is changed, nothing
    fails. -/
theorem rename_then_contents_atomic (update : MeasurementUpdate) (name : String)
    (hcount : (update.typeB.getD []).length ≤ maxTypeB) :
    Atomic (do
      onDocument (.renameMeasurement update.id name)
      onMeasurement update.id (updateContents update)) := by
  refine Atomic.bind (onDocument (.renameMeasurement update.id name))
    (fun _ => onMeasurement update.id (updateContents update))
    (onDocument_atomic _ (DocumentEdit.renameMeasurement_atomic update.id name)) ?_
  intro session answer next hrename e last hlast
  rw [run_onDocument, Prod.mk.injEq] at hrename
  rcases hedit : (DocumentEdit.renameMeasurement (α := Float) update.id name).run
    session.document with ⟨cause | answer, document⟩
  · rw [hedit] at hrename
    exact absurd hrename.1 (fun hok => by cases hok)
  · -- The measurement is found again, because its identifier has not changed.
    rw [hedit] at hrename
    have hkept := DocumentEdit.renameMeasurement_isSome update.id name session.document
      document hedit
    rw [← hrename.2] at hlast
    exact absurd hlast (updateContents_after_rename update hcount _ hkept e last)

/-- A failed update has changed nothing. -/
theorem updateMeasurement_atomic (update : MeasurementUpdate) :
    Atomic (updateMeasurement update) := by
  intro session e last h
  rw [updateMeasurement, Outcome.run_bind, Outcome.run_get] at h
  simp only at h
  by_cases hfound : (session.document.measurement? update.id).isNone = true
  · rw [if_pos hfound] at h
    cases h
    rfl
  · rw [if_neg hfound] at h
    have hsome : (session.document.measurement? update.id).isSome = true := by
      rw [Option.isNone_iff_eq_none] at hfound
      exact Option.isSome_iff_ne_none.mpr hfound
    by_cases hcount : maxTypeB < (update.typeB.getD []).length
    · rw [if_pos hcount] at h
      cases h
      rfl
    · -- All checks have been made; a change of the name is the only thing to fail.
      rw [if_neg hcount] at h
      rw [Nat.not_lt] at hcount
      cases hname : update.name with
      | none =>
          rw [hname] at h
          exact absurd h (updateContents_after_rename update hcount session hsome e last)
      | some name =>
          rw [hname] at h
          exact rename_then_contents_atomic update name hcount session e last h

end Updates

section Commands

/-- What follows the edits of a command is only its reply. -/
theorem atomic_reply (x : SessionEdit β) (reply : Reply) (h : Atomic x) :
    Atomic (do
      let _ ← x
      return reply) := by
  refine Atomic.bind x _ h ?_
  intro session answer next _ e last hlast
  cases hlast

/-- The samples of a composite measurement are refused, and it is put back where it
    stood. -/
theorem commitSamples_atomic (id : RecordId) (input : String) (zeroOffset : Option Float) :
    Atomic (commitSamples id input zeroOffset) := by
  intro session e next h
  rw [commitSamples, run_onMeasurement] at h
  cases hfound : session.document.measurement? id with
  | none =>
      rw [hfound] at h
      cases h
      rfl
  | some m =>
      rw [hfound] at h
      simp only at h
      rw [Outcome.run_bind, Outcome.run_get] at h
      -- A direct measurement takes any samples; those of a composite one are refused.
      cases m with
      | direct m => cases h
      | composite m =>
          cases h
          have hput := DocumentEdit.putMeasurement_found session.document id _ hfound
          exact congrArg (fun document => { session with document }) hput

theorem setGravity_atomic (gravity latitude : Option Float) :
    Atomic (setGravity gravity latitude) := by
  intro session e next h
  rw [setGravity] at h
  split at h
  · cases h
    rfl
  · split at h
    · cases h
      rfl
    · cases h

theorem importQuery_atomic [QueryCodec] [IdSource] (query : String) : Atomic (importQuery query) := by
  intro session e next h
  rw [importQuery] at h
  split at h
  · cases h
    rfl
  · cases h

theorem addMeasurement_atomic [IdSource] (new : NewMeasurement) : Atomic (addMeasurement new) := by
  intro session e next h
  rw [addMeasurement, Outcome.run_bind, Outcome.run_get] at h
  refine Atomic.bind (onDocument (.addMeasurement (create (IdSource.serial session.nextSerial) new))) _
    (onDocument_atomic _ (DocumentEdit.addMeasurement_atomic _)) ?_ session e next h
  intro _ answer after _ cause last hlast
  cases hlast

/-- No failed command has changed anything. -/
theorem apply_atomic [QueryCodec] [IdSource] (command : Command) : Atomic (apply command) := by
  cases command with
  | addMeasurement new => exact atomic_reply _ _ (addMeasurement_atomic new)
  | updateMeasurement update => exact atomic_reply _ _ (updateMeasurement_atomic update)
  | commitSamples id input zeroOffset =>
      exact atomic_reply _ _ (commitSamples_atomic id input zeroOffset)
  | deleteMeasurement id =>
      exact atomic_reply _ _ (onDocument_atomic _ (DocumentEdit.removeMeasurement_atomic id))
  | moveMeasurement id index =>
      exact atomic_reply _ _ (onDocument_atomic _ (DocumentEdit.moveMeasurement_atomic id index))
  | addOutput name displayUnit =>
      refine atomic_reply _ _ ?_
      intro session e next h
      cases h
  | updateOutput id name displayUnit =>
      exact atomic_reply _ _ (onDocument_atomic _ (DocumentEdit.editOutput_atomic id _))
  | deleteOutput id =>
      exact atomic_reply _ _ (onDocument_atomic _ (DocumentEdit.removeOutput_atomic id))
  | setUncertaintyTypes types =>
      intro session e next h
      cases h
  | setGravity gravity latitude => exact atomic_reply _ _ (setGravity_atomic gravity latitude)
  | importQuery query => exact atomic_reply _ _ (importQuery_atomic query)
  | exportQuery =>
      intro session e next h
      cases h

end Commands

section Frames

/-- A frame that is answered by an error leaves the whole session as it was: the
    document, the constants, the derivatives and the next number. -/
theorem rejected_unchanged [QueryCodec] [Json.Reader] [IdSource] (session : Session)
    (frame : String) (payload : Json.Tree) (h : .error payload ∈ (session.handle frame).1) :
    (session.handle frame).2 = session := by
  rw [handle] at h ⊢
  cases hread : Command.read frame with
  | error cause => rfl
  | ok command =>
      simp only [hread] at h ⊢
      rcases hrun : (apply command).run session with ⟨cause | reply, next⟩
      · exact apply_atomic command session cause next hrun
      · -- Neither the snapshot nor the answer to a query is an error.
        rw [hrun] at h
        cases reply with
        | refresh => exact absurd h (by simp [snapshot])
        | query text => exact absurd h (by simp)

end Frames

section Example

open scoped Standard

/-- Whether an answer is an error. -/
def isError : Frame → Bool
  | .error _ => true
  | _ => false

/-- A session in which a length and its double are measured. -/
def lengthAndDouble : Session :=
  let added := ((start 9.8).handle
    "MEASUREMENT_ADD:\x7b\"type\":\"direct\",\"name\":\"l\",\"unit\":\"cm\"\x7d").2
  (added.handle
    "MEASUREMENT_ADD:\x7b\"type\":\"composite\",\"name\":\"v\",\"formula\":\"2 l\"\x7d").2

/-- A composite measurement cannot be given the name of the length, and it does not
    get the new formula either. -/
theorem rejected_unchanged_taken_name :
    (lengthAndDouble.handle ("MEASUREMENT_UPDATE:\x7b\"id\":\"00000000-0000-4000-8000-000000000002\","
      ++ "\"name\":\"l\",\"formula\":\"3 l\"\x7d")).2 = lengthAndDouble := by
  have hanswer : (lengthAndDouble.handle
      ("MEASUREMENT_UPDATE:\x7b\"id\":\"00000000-0000-4000-8000-000000000002\","
        ++ "\"name\":\"l\",\"formula\":\"3 l\"\x7d")).1.any isError = true := by decide +kernel
  rcases List.any_eq_true.mp hanswer with ⟨answer, hmem, herror⟩
  cases answer with
  | error payload => exact rejected_unchanged lengthAndDouble _ payload hmem
  | document payload => cases herror
  | outputs payload => cases herror
  | query text => cases herror

end Example

end Metrology.Session
