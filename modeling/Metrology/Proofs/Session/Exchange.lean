import Metrology.Proofs.Record.RoundTrip
import Metrology.Proofs.Session.Numbering

/-!
# Export and import

The query of a session's document, imported anywhere. The import always
succeeds: the query of any records can be read. What comes back is the document's
records, up to blank type-B limits, exactly if none of their names, units, limits
and display units holds a comma; a formula may.

That nothing else is lost rests on what every document of a session is like. A
direct measurement has all its slots from the start, so there is a slot for each
limit that is written, and the display unit of an output is never blank, so it is
not dropped when the output is made again.

## Main definitions

* `Record.reloaded?`: The record of what a record stands for.
* `Session.Complete`: A document with all slots and without blank display units.

## Theorems

* `Document.toRecords_load`: The records of a loaded document.
* `Session.complete_after`: Every document of a session is complete.
* `Session.import_export_iff`: What comes back of an exported document.
-/

namespace Metrology

section Loading

/-- The record of the measurement or output that a record stands for. -/
def Record.reloaded? : Record → Option Record
  | .direct name unit typeB =>
    if name.isEmpty then none
    else some (.direct name unit
      ((DirectMeasurement.fillTypeB (List.replicate maxTypeB .blank) typeB).map (·.value)))
  | .composite name formula => if name.isEmpty then none else some (.composite name formula)
  | .output name displayUnit =>
    if name.isEmpty then none else some (.output name (Output.unitOf displayUnit))

namespace Document

variable {α : Type}

/-- The records of a loaded document: the measurements first, then the outputs. -/
theorem toRecords_load (document : Document α) (ids : Nat → RecordId) (records : List Record) :
    (document.load ids records).toRecords =
      (records.filter (!isOutput ·)).filterMap Record.reloaded? ++
        (records.filter isOutput).filterMap Record.reloaded? := by
  have hmeasured : ∀ record ∈ records.filter (!isOutput ·), ∀ n,
      (measurementOf? (α := α) (ids n) record).bind recordOf? = record.reloaded? := by
    intro record hrecord n
    cases record with
    | direct name unit typeB => rfl
    | composite name formula => rfl
    | output name displayUnit => exact absurd (List.mem_filter.mp hrecord).2 (by simp [isOutput])
  have hshown : ∀ record ∈ records.filter isOutput, ∀ n,
      (outputOf? (ids ((records.filter (!isOutput ·)).length + n)) record).bind outputRecord? =
        record.reloaded? := by
    intro record hrecord n
    cases record with
    | direct name unit typeB => exact absurd (List.mem_filter.mp hrecord).2 (by simp [isOutput])
    | composite name formula => exact absurd (List.mem_filter.mp hrecord).2 (by simp [isOutput])
    | output name displayUnit => rfl
  rw [toRecords, load]
  simp only
  rw [← filterMap_zipIdx _ _ _ _ hmeasured, ← filterMap_zipIdx _ _ _ _ hshown]

/-- The record of a measurement is one of a measurement. -/
theorem isOutput_of_recordOf? (m : Measurement α) (record : Record)
    (h : recordOf? m = some record) : isOutput record = false := by
  unfold recordOf? at h
  split at h
  · cases h
  · rw [← Option.some.inj h]
    cases m <;> rfl

/-- The record of an output is one of an output. -/
theorem isOutput_of_outputRecord? (output : Output) (record : Record)
    (h : outputRecord? output = some record) : isOutput record = true := by
  rw [outputRecord?] at h
  split at h
  · cases h
  · rw [← Option.some.inj h]
    rfl

/-- What is not written does not change what a record stands for. -/
@[simp]
theorem isOutput_written (record : Record) : isOutput record.written = isOutput record := by
  cases record <;> rfl

end Document

end Loading

section TypeB

open DirectMeasurement (fillTypeB)

/-- Texts that fit into blank entries are followed by empty ones. -/
theorem DirectMeasurement.values_fillTypeB (values : List String) :
    ∀ count, values.length ≤ count →
      (fillTypeB (List.replicate count .blank) values).map (·.value) =
        values ++ List.replicate (count - values.length) "" := by
  induction values with
  | nil =>
      intro count _
      cases count with
      | zero => rfl
      | succ count => simp [List.replicate_succ, fillTypeB, TypeBEntry.blank]
  | cons value rest ih =>
      intro count hcount
      cases count with
      | zero => simp at hcount
      | succ count =>
          rw [List.length_cons] at hcount
          rw [List.replicate_succ, fillTypeB, List.map_cons, ih count (by omega), List.length_cons,
            Nat.succ_sub_succ, List.cons_append]

theorem Text.ne_empty_of_not_blank (text : String) (h : (!isBlankText text) = true) :
    (!text.isEmpty) = true := by
  rw [Bool.not_eq_true'] at h ⊢
  rw [Bool.eq_false_iff] at h ⊢
  intro hempty
  refine h ?_
  rw [String.isEmpty_iff] at hempty
  rw [hempty]
  rfl

/-- The limits of a measurement with all its slots are written and come back, but for
    blank ones. -/
theorem Record.reloaded_typeB (values : List String) (hslots : values.length = maxTypeB) :
    (((fillTypeB (List.replicate maxTypeB .blank) (typeBFields values)).map (·.value)).filter
      fun value => !Text.isBlankText value) = values.filter fun value => !Text.isBlankText value := by
  have hall : typeBFields values = values.filter fun value => !value.isEmpty := by
    rw [typeBFields, List.take_of_length_le]
    rw [← hslots]
    exact List.length_filter_le _ _
  have hempty : (List.replicate (maxTypeB - (typeBFields values).length) "").filter
      (fun value => !Text.isBlankText value) = [] := by
    refine List.filter_eq_nil_iff.mpr fun value hvalue => ?_
    rw [List.eq_of_mem_replicate hvalue]
    decide
  rw [DirectMeasurement.values_fillTypeB _ _ (length_typeBFields values), List.filter_append,
    hempty, List.append_nil, hall, List.filter_filter]
  refine List.filter_congr fun value _ => ?_
  rw [Bool.and_eq_left_iff_imp]
  exact Text.ne_empty_of_not_blank value

end TypeB

section Returning

namespace Record

/-- What comes back of a record holds a comma only where the record does. -/
theorem commaFree_of_reloaded? (record other : Record) (hcommas : record.CommaFree)
    (hlimits : ∀ name unit typeB, record = direct name unit typeB → typeB.length ≤ maxTypeB)
    (h : record.reloaded? = some other) : other.CommaFree := by
  cases record with
  | direct name unit typeB =>
      rw [reloaded?] at h
      split at h
      · cases h
      · rw [← Option.some.inj h]
        refine ⟨hcommas.1, hcommas.2.1, fun value hvalue => ?_⟩
        rw [DirectMeasurement.values_fillTypeB _ _ (hlimits name unit typeB rfl)] at hvalue
        rcases List.mem_append.mp hvalue with hvalue | hvalue
        · exact hcommas.2.2 value hvalue
        · rw [List.eq_of_mem_replicate hvalue]
          decide
  | composite name formula =>
      rw [reloaded?] at h
      split at h
      · cases h
      · rw [← Option.some.inj h]
        exact hcommas
  | output name displayUnit =>
      rw [reloaded?] at h
      split at h
      · cases h
      · rw [← Option.some.inj h]
        exact ⟨hcommas.1, fun unit hunit => hcommas.2 unit (Option.mem_filter_iff.mp hunit).1⟩

/-- What is read back has as many limits as there are slots at most. -/
theorem length_of_readBack? (record : Record) (name unit : String) (typeB : List String)
    (h : record.readBack? = some (direct name unit typeB)) : typeB.length ≤ maxTypeB := by
  rw [readBack?, ofPair?] at h
  simp only at h
  split at h
  · cases h
    exact length_typeBFields _
  · split at h
    · cases h
    · split at h <;> cases h

end Record

namespace Document

/-- Nothing that is loaded from records without commas holds a comma, but in
    formulas. -/
theorem commaFree_of_load {α : Type} (document : Document α) (ids : Nat → RecordId)
    (records : List Record) (hcommas : ∀ record ∈ records, record.CommaFree)
    (hlimits : ∀ name unit typeB, .direct name unit typeB ∈ records → typeB.length ≤ maxTypeB)
    (other : Record) (h : other ∈ (document.load ids records).toRecords) : other.CommaFree := by
  have hreloaded : ∃ record ∈ records, record.reloaded? = some other := by
    rw [toRecords_load] at h
    rcases List.mem_append.mp h with h | h
    · rcases List.mem_filterMap.mp h with ⟨record, hrecord, hother⟩
      exact ⟨record, (List.mem_filter.mp hrecord).1, hother⟩
    · rcases List.mem_filterMap.mp h with ⟨record, hrecord, hother⟩
      exact ⟨record, (List.mem_filter.mp hrecord).1, hother⟩
  rcases hreloaded with ⟨record, hrecord, hother⟩
  refine record.commaFree_of_reloaded? other (hcommas record hrecord) ?_ hother
  rintro name unit typeB rfl
  exact hlimits name unit typeB hrecord

/-- Nothing that is loaded from the query of a document holds a comma, but in
    formulas. -/
theorem commaFree_of_loaded (document : Document Float) (ids : Nat → RecordId)
    (records : List Record) (other : Record)
    (h : other ∈ (document.load ids (records.filterMap Record.readBack?)).toRecords) :
    other.CommaFree := by
  refine commaFree_of_load document ids _ (fun record hrecord => ?_)
    (fun name unit typeB hrecord => ?_) other h
  · rcases List.mem_filterMap.mp hrecord with ⟨source, -, hsource⟩
    exact source.commaFree_of_readBack? record hsource
  · rcases List.mem_filterMap.mp hrecord with ⟨source, -, hsource⟩
    exact source.length_of_readBack? name unit typeB hsource

/-- The record of a measurement with all its slots comes back, but for blank
    limits. -/
theorem reloaded?_of_recordOf? (m : Measurement Float) (hslots : Session.HasSlots m)
    (record : Record) (h : recordOf? m = some record) :
    (record.written.reloaded?).map Record.tidy = some record.tidy := by
  unfold recordOf? at h
  split at h
  · cases h
  · next hname =>
    rw [← Option.some.inj h]
    cases m with
    | direct m =>
        have htypeB := Record.reloaded_typeB (m.typeB.map (·.value))
          ((List.length_map _).trans hslots)
        simp only [Measurement.name] at hname
        simp only [Record.written, Record.reloaded?, hname, if_false, Option.map_some,
          Record.tidy, htypeB, Bool.false_eq_true]
    | composite m =>
        simp only [Measurement.name] at hname
        simp only [Record.written, Record.reloaded?, hname, if_false, Option.map_some,
          Bool.false_eq_true]

end Document

/-- A display unit that is taken over is not blank. -/
theorem Output.notBlank_of_unitOf (text : Option String) (unit : String)
    (h : unit ∈ unitOf text) : Text.isBlankText unit = false := by
  have := (Option.mem_filter_iff.mp h).2
  rwa [Bool.not_eq_true'] at this

/-- A display unit that is not blank is written and comes back. -/
theorem Output.unitOf_filter (displayUnit : Option String)
    (h : ∀ unit ∈ displayUnit, Text.isBlankText unit = false) :
    unitOf (displayUnit.filter fun unit => !unit.isEmpty) = displayUnit := by
  cases displayUnit with
  | none => rfl
  | some unit =>
      have hblank := h unit rfl
      have hnonempty := Text.ne_empty_of_not_blank unit (by rw [hblank]; rfl)
      rw [Option.filter_some, if_pos hnonempty, unitOf, Option.filter_some, hblank]
      rfl

namespace Document

/-- The record of an output whose display unit is not blank comes back. -/
theorem reloaded?_of_outputRecord? (output : Output)
    (hunit : ∀ unit ∈ output.displayUnit, Text.isBlankText unit = false)
    (record : Record) (h : outputRecord? output = some record) :
    (record.written.reloaded?).map Record.tidy = some record.tidy := by
  rw [outputRecord?] at h
  split at h
  · cases h
  · next hname =>
    rw [← Option.some.inj h]
    simp only [Record.written, Record.reloaded?, hname, if_false,
      Output.unitOf_filter output.displayUnit hunit, Option.map_some, Bool.false_eq_true]

/-- What comes back of each of several records comes back of all. -/
theorem map_tidy_reloaded (records : List Record)
    (h : ∀ record ∈ records,
      (record.written.reloaded?).map Record.tidy = some record.tidy) :
    ((records.map Record.written).filterMap Record.reloaded?).map Record.tidy =
      records.map Record.tidy := by
  rw [List.filterMap_map, List.map_filterMap]
  exact (List.filterMap_congr h).trans (congrFun List.filterMap_eq_map' records)

end Document

end Returning

namespace Session

open Document (isOutput)

/-- A document in which direct measurements have all their slots, and no display unit is
    blank. -/
structure Complete (document : Document Float) : Prop where
  slots : ∀ m ∈ document.measurements, HasSlots m
  units : ∀ output ∈ document.outputs, ∀ unit ∈ output.displayUnit,
    Text.isBlankText unit = false

section Completeness

theorem hasSlots_create (id : RecordId) (new : NewMeasurement) : HasSlots (create id new) := by
  cases new with
  | direct name unit => exact (renamed_kept name (.direct (.empty id "" unit))).2.slots rfl
  | composite name formula => trivial

theorem hasSlots_measurementOf? (id : RecordId) (record : Record) (m : Measurement Float)
    (h : Document.measurementOf? id record = some m) : HasSlots m := by
  cases record with
  | direct name unit typeB =>
      cases h
      exact DirectMeasurement.length_fillTypeB _ typeB
  | composite name formula =>
      cases h
      trivial
  | output name displayUnit => cases h

/-- A measurement with slots in the place of another one. -/
theorem Complete.put (document : Document Float) (h : Complete document) (id : RecordId)
    (m m' : Measurement Float) (hfound : document.measurement? id = some m)
    (hslots : HasSlots m → HasSlots m') : Complete (document.putMeasurement id m') := by
  rcases document.putMeasurement_split id m hfound with ⟨-, before, after, hms, -, hput⟩
  refine ⟨fun other hother => ?_, h.units⟩
  rw [hput m'] at hother
  rcases List.mem_append.mp hother with hother | hother
  · exact h.slots other (by rw [hms]; exact List.mem_append_left _ hother)
  · rcases List.mem_cons.mp hother with rfl | hother
    · exact hslots (h.slots m (by rw [hms]; simp))
    · exact h.slots other (by rw [hms]; simp [hother])

/-- A changed output has no blank display unit either. -/
theorem units_changeOutput (name displayUnit : Option String) (output : Output)
    (h : ∀ unit ∈ output.displayUnit, Text.isBlankText unit = false) :
    ∀ unit ∈ (changeOutput name displayUnit output).displayUnit,
      Text.isBlankText unit = false := by
  intro unit hunit
  rw [changeOutput] at hunit
  cases displayUnit with
  | some text => exact Output.notBlank_of_unitOf (some text) unit hunit
  | none =>
      cases name with
      | some name => cases hunit
      | none => exact h unit hunit

theorem mem_changeFirst {β : Type} (picks : β → Bool) (change : β → β) (xs : List β) (y : β)
    (h : y ∈ Document.changeFirst picks change xs) : y ∈ xs ∨ ∃ x ∈ xs, y = change x := by
  induction xs with
  | nil => cases h
  | cons x rest ih =>
      rw [Document.changeFirst] at h
      split at h
      · rcases List.mem_cons.mp h with rfl | h
        · exact .inr ⟨x, List.mem_cons_self, rfl⟩
        · exact .inl (List.mem_cons_of_mem _ h)
      · rcases List.mem_cons.mp h with rfl | h
        · exact .inl List.mem_cons_self
        · rcases ih h with h | ⟨x', hx', heq⟩
          · exact .inl (List.mem_cons_of_mem _ h)
          · exact .inr ⟨x', List.mem_cons_of_mem _ hx', heq⟩

/-- Every command keeps the document complete. -/
theorem Complete.carried [QueryCodec] [IdSource] (session : Session) (command : Command)
    (next : Session) (hcarried : Carried session command next) (h : Complete session.document) :
    Complete next.document := by
  cases hcarried with
  | added new hfree =>
      refine ⟨fun m hm => ?_, h.units⟩
      rcases List.mem_append.mp hm with hm | hm
      · exact h.slots m hm
      · rw [List.mem_singleton.mp hm]
        exact hasSlots_create _ new
  | updated update m hfound hcount hfree =>
      exact h.put _ update.id m _ hfound (revised_kept update hcount m).2.slots
  | sampled id input zeroOffset m hfound => exact h.put _ id (.direct m) _ hfound fun hslots => hslots
  | deleted id m measurements htaken =>
      exact ⟨fun other hother => h.slots other
        ((Document.sublist_of_takeOut? _ _ _ _ htaken).subset hother), h.units⟩
  | moved id index m measurements htaken =>
      exact ⟨fun other hother => h.slots other
        ((Document.perm_moved _ _ _ _ index htaken).mem_iff.mp hother), h.units⟩
  | outputAdded name displayUnit =>
      refine ⟨h.slots, fun output houtput => ?_⟩
      rcases List.mem_append.mp houtput with houtput | houtput
      · exact h.units output houtput
      · rw [List.mem_singleton.mp houtput]
        exact Output.notBlank_of_unitOf displayUnit
  | outputUpdated id name displayUnit found hfound =>
      refine ⟨h.slots, fun output houtput => ?_⟩
      rcases mem_changeFirst _ _ _ _ houtput with houtput | ⟨source, hsource, rfl⟩
      · exact h.units output houtput
      · exact units_changeOutput name displayUnit source (h.units source hsource)
  | outputDeleted id output outputs htaken =>
      exact ⟨h.slots, fun other hother => h.units other
        ((Document.sublist_of_takeOut? _ _ _ _ htaken).subset hother)⟩
  | typesSet types => exact ⟨h.slots, h.units⟩
  | gravitySet gravity? latitude gravity hgravity hvalid => exact ⟨h.slots, h.units⟩
  | imported query records hrecords =>
      refine ⟨fun m hm => ?_, fun output houtput => ?_⟩
      · rcases List.mem_filterMap.mp hm with ⟨⟨record, n⟩, -, hrecord⟩
        exact hasSlots_measurementOf? _ record m hrecord
      · rcases List.mem_filterMap.mp houtput with ⟨⟨record, n⟩, -, hrecord⟩
        cases record with
        | direct name unit typeB => cases hrecord
        | composite name formula => cases hrecord
        | output name displayUnit =>
            cases hrecord
            exact Output.notBlank_of_unitOf displayUnit

/-- Every document of a session is complete. -/
theorem complete_after [QueryCodec] [Json.Reader] [IdSource] (gravity : Float) (frames : List String) :
    Complete ((start gravity).after frames).document := by
  refine after_induction (fun session => Complete session.document) (start gravity)
    ⟨fun m hm => ?_, fun output houtput => ?_⟩ (fun session frame => ?_) frames
  · cases hm
  · cases houtput
  · exact handle_keeps (fun document _ => Complete document) Complete.carried session frame

end Completeness

section Exchange

/-- The frame that imports a query. -/
theorem read_import [Json.Reader] [IdSource] (query : String) :
    Command.read ("IMPORT:" ++ query) = .ok (.importQuery query) := by
  have hcut : Text.cutOnce? ':' ("IMPORT:" ++ query) = some ("IMPORT", query) :=
    Text.cutOnce?_append ':' "IMPORT" query (by decide)
  rw [Command.read, hcut]
  rfl

theorem handle_export [QueryCodec] [Json.Reader] [IdSource] (session : Session) :
    (session.handle "EXPORT").1 = [.query session.document.toQuery] := rfl

/-- Written records are cut into measurements and outputs where they were joined. -/
theorem cut_written (measured shown : List Record)
    (hmeasured : ∀ record ∈ measured, isOutput record = false)
    (hshown : ∀ record ∈ shown, isOutput record = true) :
    ((measured ++ shown).map Record.written).filter (!isOutput ·) = measured.map Record.written ∧
      ((measured ++ shown).map Record.written).filter isOutput = shown.map Record.written := by
  have hfront : ∀ record ∈ measured.map Record.written, isOutput record = false := by
    intro record hrecord
    rcases List.mem_map.mp hrecord with ⟨source, hsource, rfl⟩
    exact (Document.isOutput_written source).trans (hmeasured source hsource)
  have hback : ∀ record ∈ shown.map Record.written, isOutput record = true := by
    intro record hrecord
    rcases List.mem_map.mp hrecord with ⟨source, hsource, rfl⟩
    exact (Document.isOutput_written source).trans (hshown source hsource)
  rw [List.map_append, List.filter_append, List.filter_append]
  constructor
  · rw [List.filter_eq_self.mpr fun record hrecord => by rw [hfront record hrecord]; rfl,
      List.filter_eq_nil_iff.mpr fun record hrecord => by simp [hback record hrecord],
      List.append_nil]
  · rw [List.filter_eq_nil_iff.mpr fun record hrecord => by simp [hfront record hrecord],
      List.filter_eq_self.mpr hback, List.nil_append]

/-- What comes back of the records of a complete document if they hold no commas. -/
theorem records_returned (document target : Document Float) (h : Complete document)
    (ids : Nat → RecordId) (hcommas : ∀ record ∈ document.toRecords, record.CommaFree) :
    (target.load ids (document.toRecords.filterMap Record.readBack?)).toRecords.map Record.tidy =
      document.toRecords.map Record.tidy := by
  have hmeasured : ∀ record ∈ document.measurements.filterMap Document.recordOf?,
      isOutput record = false ∧
        (record.written.reloaded?).map Record.tidy = some record.tidy := by
    intro record hrecord
    rcases List.mem_filterMap.mp hrecord with ⟨m, hm, hrecord⟩
    exact ⟨Document.isOutput_of_recordOf? m record hrecord,
      Document.reloaded?_of_recordOf? m (h.slots m hm) record hrecord⟩
  have hshown : ∀ record ∈ document.outputs.filterMap Document.outputRecord?,
      isOutput record = true ∧
        (record.written.reloaded?).map Record.tidy = some record.tidy := by
    intro record hrecord
    rcases List.mem_filterMap.mp hrecord with ⟨output, houtput, hrecord⟩
    exact ⟨Document.isOutput_of_outputRecord? output record hrecord,
      Document.reloaded?_of_outputRecord? output (h.units output houtput) record hrecord⟩
  have hcut := cut_written _ _ (fun record hrecord => (hmeasured record hrecord).1)
    (fun record hrecord => (hshown record hrecord).1)
  rw [Record.filterMap_readBack? _ hcommas, Document.toRecords_load, Document.toRecords, hcut.1, hcut.2,
    List.map_append, List.map_append,
    Document.map_tidy_reloaded _ fun record hrecord => (hmeasured record hrecord).2,
    Document.map_tidy_reloaded _ fun record hrecord => (hshown record hrecord).2]

/-- The query that a session exports is imported anywhere without an error, and what
    comes back is the same records, up to blank type-B limits, if and only if none of
    them holds a comma outside of a formula. -/
theorem import_export_iff [QueryCodec] [LawfulQueryCodec] [Json.Reader] [IdSource]
    (gravity : Float) (frames : List String) (target : Session) :
    let exported := ((start gravity).after frames).document
    (((start gravity).after frames).handle "EXPORT").1 = [.query exported.toQuery] ∧
      (∃ document outputs,
        (target.handle ("IMPORT:" ++ exported.toQuery)).1 = [.document document, .outputs outputs]) ∧
      (((target.handle ("IMPORT:" ++ exported.toQuery)).2.document.toRecords.map Record.tidy =
          exported.toRecords.map Record.tidy) ↔
        ∀ record ∈ exported.toRecords, record.CommaFree) := by
  intro exported
  have hrecords : Record.decodeAll exported.toQuery =
      .ok (exported.toRecords.filterMap Record.readBack?) :=
    Record.decodeAll_encodeAll exported.toRecords
  have hhandle := handle_import target _ exported.toQuery _ (read_import _) hrecords
  refine ⟨handle_export _, ?_, ?_⟩
  · rw [hhandle]
    exact ⟨_, _, rfl⟩
  · have hdocument : (target.handle ("IMPORT:" ++ exported.toQuery)).2.document =
        target.document.load (fun n => IdSource.serial (target.nextSerial + n))
          (exported.toRecords.filterMap Record.readBack?) := by
      rw [hhandle]
      rfl
    rw [hdocument]
    constructor
    · -- What is loaded holds no commas, so what is equal to it holds none either.
      intro hequal record hrecord
      have hmem : record.tidy ∈ exported.toRecords.map Record.tidy := List.mem_map_of_mem hrecord
      rw [← hequal] at hmem
      rcases List.mem_map.mp hmem with ⟨other, hother, htidy⟩
      rw [← Record.commaFree_tidy, ← htidy, Record.commaFree_tidy]
      exact Document.commaFree_of_loaded _ _ _ other hother
    · exact records_returned exported target.document (complete_after gravity frames) _

end Exchange

section Example

open scoped Standard

/-- The frame that adds a measurement with a comma in its name. -/
def commaInName : String :=
  "MEASUREMENT_ADD:\x7b\"type\":\"direct\",\"name\":\"a,b\",\"unit\":\"m\"\x7d"

/-- The measurement comes back under the first half of its name, and the second half is
    its unit. -/
theorem import_export_iff_commaInName :
    let exported := ((start 9.8).after [commaInName]).document
    let imported := ((start 9.8).handle ("IMPORT:" ++ exported.toQuery)).2.document
    exported.toQuery = "d=a%2Cb%2Cm" ∧ imported.toRecords = [.direct "a" "b" ["m", ""]] ∧
      imported.toRecords.map Record.tidy ≠ exported.toRecords.map Record.tidy := by
  have hexported : ((start 9.8).after [commaInName]).document.toRecords =
      [.direct "a,b" "m" ["", ""]] := by
    decide +kernel
  have hquery : ((start 9.8).after [commaInName]).document.toQuery = "d=a%2Cb%2Cm" := by
    decide +kernel
  have himported : ((start 9.8).handle ("IMPORT:" ++ "d=a%2Cb%2Cm")).2.document.toRecords =
      [.direct "a" "b" ["m", ""]] := by
    decide +kernel
  rw [← hquery] at himported
  refine ⟨hquery, himported, fun hequal => ?_⟩
  -- Nothing with a comma in its name would have come back.
  have hcommas := (import_export_iff 9.8 [commaInName] (start 9.8)).2.2.mp hequal
  rw [hexported] at hcommas
  exact (hcommas _ List.mem_cons_self).1 (by decide)

end Example

end Session

end Metrology
