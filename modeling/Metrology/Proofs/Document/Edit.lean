import Metrology.Document
import Metrology.Proofs.Outcome

/-!
# Edits of documents

What each edit does to a document, its failures included, and that a failed edit
has changed nothing. Every edit looks for what it needs first, so a failure
comes before the first change.

## Main definitions

* `Outcome.Atomic`: A computation that leaves the state alone when it fails.

## Theorems

* `Outcome.Atomic.bind`: A sequence that fails only in its first part.
* `DocumentEdit.run_addMeasurement`, `DocumentEdit.run_editMeasurement`,
  `DocumentEdit.run_renameMeasurement`, `DocumentEdit.run_removeMeasurement`,
  `DocumentEdit.run_moveMeasurement`, `DocumentEdit.run_editOutput`,
  `DocumentEdit.run_removeOutput`: What the edits do.
* `DocumentEdit.putMeasurement_found`: Putting a measurement back changes nothing.
* `DocumentEdit.renameMeasurement_isSome`: A renamed measurement is still there.
* `DocumentEdit.addMeasurement_atomic` and its like: Failed edits have changed
  nothing.
-/

namespace Metrology

namespace Outcome

variable {ε s α β : Type}

/-- A computation that leaves the state alone when it fails. -/
def Atomic (x : ExceptT ε (StateM s) α) : Prop :=
  ∀ state e next, x.run state = (.error e, next) → next = state

/-- A sequence is atomic if its first part is and the rest does not fail where the
    first part has changed the state. -/
theorem Atomic.bind (x : ExceptT ε (StateM s) α) (f : α → ExceptT ε (StateM s) β) (hx : Atomic x)
    (hf : ∀ state a next, x.run state = (.ok a, next) →
      ∀ e last, (f a).run next = (.error e, last) → last = state) : Atomic (x >>= f) := by
  intro state e last h
  rw [run_bind] at h
  rcases hrun : x.run state with ⟨cause | a, next⟩
  · rw [hrun] at h
    rw [Prod.mk.injEq] at h
    rw [← h.2]
    exact hx state cause next hrun
  · rw [hrun] at h
    exact hf state a next hrun e last h

end Outcome

namespace DocumentEdit

variable {α : Type}

section Runs

@[simp]
theorem run_addMeasurement (m : Measurement α) (document : Document α) :
    (addMeasurement m).run document =
      if document.isNameTaken m.name.text none then
        (.error (.nameTaken m.name.text), document)
      else (.ok ⟨⟩, { document with measurements := document.measurements ++ [m] }) := by
  rw [addMeasurement, Outcome.run_bind, Outcome.run_get]
  simp only
  split <;> rfl

@[simp]
theorem run_editMeasurement (id : RecordId) (edit : Measurement α → Measurement α)
    (document : Document α) :
    (editMeasurement id edit).run document =
      if (document.measurement? id).isNone then (.error (.notFound id), document)
      else (.ok ⟨⟩, { document with
        measurements := Document.changeFirst (fun m => m.id = id) edit document.measurements }) := by
  rw [editMeasurement, Outcome.run_bind, Outcome.run_get]
  simp only
  split <;> rfl

/-- A measurement under another name. -/
def renamed [Scalar α] (name : String) : Measurement α → Measurement α
  | .direct m => .direct (m.rename name)
  | .composite m => .composite { m with name := ⟨name⟩ }

@[simp]
theorem run_renameMeasurement [Scalar α] (id : RecordId) (name : String) (document : Document α) :
    (renameMeasurement id name).run document =
      if document.isNameTaken name (some id) then (.error (.nameTaken name), document)
      else (editMeasurement id (renamed name)).run document := by
  rw [renameMeasurement, Outcome.run_bind, Outcome.run_get]
  simp only
  split <;> rfl

@[simp]
theorem run_removeMeasurement (id : RecordId) (document : Document α) :
    (removeMeasurement id).run document =
      match Document.takeOut? (fun m : Measurement α => m.id = id) document.measurements with
      | none => (.error (.notFound id), document)
      | some (m, measurements) => (.ok m, { document with measurements }) := by
  rw [removeMeasurement, Outcome.run_bind, Outcome.run_get]
  simp only
  cases Document.takeOut? (fun m : Measurement α => m.id = id) document.measurements <;> rfl

theorem run_moveMeasurement (id : RecordId) (index : Nat) (document : Document α) :
    (moveMeasurement id index).run document =
      match (removeMeasurement id).run document with
      | (.error e, next) => (.error e, next)
      | (.ok m, next) => (.ok ⟨⟩, { next with
          measurements := next.measurements.take index ++ m :: next.measurements.drop index }) := by
  rw [moveMeasurement, Outcome.run_bind]
  rcases (removeMeasurement id).run document with ⟨_ | _, _⟩ <;> rfl

@[simp]
theorem run_editOutput (id : RecordId) (edit : Output → Output) (document : Document α) :
    (editOutput id edit).run document =
      if (document.output? id).isNone then (.error (.notFound id), document)
      else (.ok ⟨⟩, { document with
        outputs := Document.changeFirst (fun output => output.id = id) edit document.outputs }) := by
  rw [editOutput, Outcome.run_bind, Outcome.run_get]
  simp only
  split <;> rfl

@[simp]
theorem run_removeOutput (id : RecordId) (document : Document α) :
    (removeOutput id).run document =
      match Document.takeOut? (fun output : Output => output.id = id) document.outputs with
      | none => (.error (.notFound id), document)
      | some (output, outputs) => (.ok output, { document with outputs }) := by
  rw [removeOutput, Outcome.run_bind, Outcome.run_get]
  simp only
  cases Document.takeOut? (fun output : Output => output.id = id) document.outputs <;> rfl

end Runs

section Atomicity

theorem addMeasurement_atomic (m : Measurement α) : Outcome.Atomic (addMeasurement m) := by
  intro document e next h
  rw [run_addMeasurement] at h
  split at h <;> cases h
  rfl

theorem editMeasurement_atomic (id : RecordId) (edit : Measurement α → Measurement α) :
    Outcome.Atomic (editMeasurement id edit) := by
  intro document e next h
  rw [run_editMeasurement] at h
  split at h <;> cases h
  rfl

theorem renameMeasurement_atomic [Scalar α] (id : RecordId) (name : String) :
    Outcome.Atomic (renameMeasurement (α := α) id name) := by
  intro document e next h
  rw [run_renameMeasurement] at h
  split at h
  · cases h
    rfl
  · exact editMeasurement_atomic id (renamed name) document e next h

theorem removeMeasurement_atomic (id : RecordId) :
    Outcome.Atomic (removeMeasurement (α := α) id) := by
  intro document e next h
  rw [run_removeMeasurement] at h
  split at h <;> cases h
  rfl

theorem moveMeasurement_atomic (id : RecordId) (index : Nat) :
    Outcome.Atomic (moveMeasurement (α := α) id index) := by
  intro document e next h
  rw [run_moveMeasurement] at h
  split at h
  · next cause left hremove =>
    rw [Prod.mk.injEq] at h
    rw [← h.2]
    exact removeMeasurement_atomic id document cause left hremove
  · cases h

theorem editOutput_atomic (id : RecordId) (edit : Output → Output) :
    Outcome.Atomic (editOutput (α := α) id edit) := by
  intro document e next h
  rw [run_editOutput] at h
  split at h <;> cases h
  rfl

theorem removeOutput_atomic (id : RecordId) : Outcome.Atomic (removeOutput (α := α) id) := by
  intro document e next h
  rw [run_removeOutput] at h
  split at h <;> cases h
  rfl

end Atomicity

section Identifiers

theorem find?_changeFirst_isSome {β : Type} (picks : β → Bool) (change : β → β)
    (hkept : ∀ x, picks x = true → picks (change x) = true) (xs : List β) :
    ((Document.changeFirst picks change xs).find? picks).isSome = (xs.find? picks).isSome := by
  induction xs with
  | nil => rfl
  | cons x rest ih =>
      rw [Document.changeFirst]
      by_cases hx : picks x = true
      · rw [if_pos hx, List.find?_cons_of_pos (hkept x hx), List.find?_cons_of_pos hx]
        rfl
      · rw [if_neg hx, List.find?_cons_of_neg hx, List.find?_cons_of_neg hx, ih]

theorem changeFirst_found {β : Type} (picks : β → Bool) (xs : List β) (x : β)
    (h : xs.find? picks = some x) : Document.changeFirst picks (fun _ => x) xs = xs := by
  induction xs with
  | nil => rfl
  | cons first rest ih =>
      rw [Document.changeFirst]
      by_cases hfirst : picks first = true
      · rw [List.find?_cons_of_pos hfirst, Option.some.injEq] at h
        rw [if_pos hfirst, h]
      · rw [List.find?_cons_of_neg hfirst] at h
        rw [if_neg hfirst, ih h]

/-- A measurement that is put back where it stood leaves the document as it was. -/
theorem putMeasurement_found (document : Document α) (id : RecordId) (m : Measurement α)
    (h : document.measurement? id = some m) : document.putMeasurement id m = document := by
  rw [Document.putMeasurement, changeFirst_found _ _ m h]

@[simp]
theorem id_rename [Scalar α] (m : DirectMeasurement α) (name : String) :
    (m.rename name).id = m.id := by
  rw [DirectMeasurement.rename]
  split
  · split <;> rfl
  · rfl

/-- A renamed measurement is still there. -/
theorem renameMeasurement_isSome [Scalar α] (id : RecordId) (name : String)
    (document next : Document α)
    (h : (renameMeasurement id name).run document = (.ok ⟨⟩, next)) :
    (next.measurement? id).isSome = true := by
  rw [run_renameMeasurement, run_editMeasurement] at h
  split at h
  · cases h
  · split at h
    · cases h
    · next hfound =>
      cases h
      rw [Document.measurement?, find?_changeFirst_isSome]
      · rw [Document.measurement?] at hfound
        simpa using hfound
      · -- The name is no part of the identifier, also where it suggests a unit.
        intro m hm
        have hid : m.id = id := of_decide_eq_true hm
        have hkept : (renamed name m).id = m.id := by
          cases m with
          | direct m => exact id_rename m name
          | composite m => rfl
        exact decide_eq_true (hkept.trans hid)

end Identifiers

end DocumentEdit

end Metrology
