import Metrology.Proofs.Session.Exchange

/-!
# The canonical form of a query

A query that is read and written again is another text, as a rule: pairs that
stand for no record are gone, and so are unnamed records; measurements come before
outputs; plus signs and percent forms are written in one way only. Reading that
text and writing it once more changes nothing further. Canonical form is reached in
one step, from every query that can be read at all.

The records that are read back are the same ones, but for the identifiers that
readers give out. This rests on two facts about what a reader makes. Nothing but a
formula holds a comma, so the pairs of the written query are cut where they were
joined. And what is added by reading, the blank slots of a direct measurement, is
not written.

## Main definitions

* `Measurement.withId`: A measurement under another identifier.
* `Document.canonical`: The named records of a document, under fresh identifiers.

## Theorems

* `Document.filterMap_renewed`: What is made again of the records of a list.
* `Document.toRecords_canonical`: The canonical form has the same records.
* `Document.ofQuery_toQuery`: What the written query of a document is read as.
-/

namespace Metrology

variable {α : Type}

/-- The measurement under another identifier. -/
def Measurement.withId (id : RecordId) : Measurement α → Measurement α
  | .direct m => .direct { m with id }
  | .composite m => .composite { m with id }

namespace Document

/-- The named measurements and outputs of a document, each list in its order. The
    `n`-th identifier goes to the `n`-th of the measurements followed by the
    outputs. -/
def canonical (document : Document α) (ids : Nat → RecordId) : Document α :=
  let measured := document.measurements.filter fun m => !m.name.text.isEmpty
  let shown := document.outputs.filter fun output => !output.name.isEmpty
  { document with
    measurements := measured.zipIdx.map fun (m, n) => m.withId (ids n)
    outputs := shown.zipIdx.map fun (output, n) => { output with id := ids (measured.length + n) } }

section Lists

variable {β γ : Type}

/-- As many elements have a record as are named. -/
theorem length_filterMap_named (record? : β → Option γ) (named : β → Bool) (xs : List β)
    (hnamed : ∀ x ∈ xs, (record? x).isSome = named x) :
    (xs.filterMap record?).length = (xs.filter named).length := by
  rw [List.length_filterMap_eq_countP, ← List.countP_eq_length_filter]
  exact List.countP_congr fun x hx => by rw [hnamed x hx]

/-- What is made of the numbered records of a list is each named element of the list,
    renewed under the same number. -/
theorem filterMap_renewed (record? : β → Option γ) (named : β → Bool)
    (make : γ → Nat → Option β) (renew : β → Nat → β) (xs : List β)
    (hnamed : ∀ x ∈ xs, (record? x).isSome = named x)
    (hmake : ∀ x ∈ xs, ∀ record, record? x = some record → ∀ n, make record n = some (renew x n))
    (start : Nat) :
    ((xs.filterMap record?).zipIdx start).filterMap (fun (record, n) => make record n) =
      ((xs.filter named).zipIdx start).map fun (x, n) => renew x n := by
  induction xs generalizing start with
  | nil => rfl
  | cons x rest ih =>
      have hrest := ih (fun y hy => hnamed y (List.mem_cons_of_mem _ hy))
        (fun y hy => hmake y (List.mem_cons_of_mem _ hy))
      have hx := hnamed x List.mem_cons_self
      cases hrecord : record? x with
      | none =>
          rw [hrecord, Option.isSome_none] at hx
          rw [List.filterMap_cons_none hrecord, List.filter_cons_of_neg (by rw [← hx]; simp)]
          exact hrest start
      | some record =>
          rw [hrecord, Option.isSome_some] at hx
          rw [List.filterMap_cons_some hrecord, List.filter_cons_of_pos hx.symm, List.zipIdx_cons,
            List.zipIdx_cons, List.map_cons, ← hrest (start + 1)]
          exact List.filterMap_cons_some (hmake x List.mem_cons_self record hrecord start)

end Lists

section Records

@[simp]
theorem recordOf?_withId (id : RecordId) (m : Measurement α) :
    recordOf? (m.withId id) = recordOf? m := by
  cases m <;> rfl

theorem isSome_recordOf? (m : Measurement α) :
    (recordOf? m).isSome = !m.name.text.isEmpty := by
  unfold recordOf?
  cases m.name.text.isEmpty <;> rfl

theorem isSome_outputRecord? (output : Output) :
    (outputRecord? output).isSome = !output.name.isEmpty := by
  unfold outputRecord?
  cases output.name.isEmpty <;> rfl

/-- Identifiers are not written, and neither are unnamed records. -/
theorem toRecords_canonical (document : Document α) (ids : Nat → RecordId) :
    (document.canonical ids).toRecords = document.toRecords := by
  have hrenewed : ∀ {β γ : Type} (record? : β → Option γ) (named : β → Bool) (renew : β → Nat → β)
      (xs : List β), (∀ x, (record? x).isSome = named x) →
      (∀ x n, record? (renew x n) = record? x) →
      ((xs.filter named).zipIdx.map fun (x, n) => renew x n).filterMap record? =
        xs.filterMap record? := by
    intro β γ record? named renew xs hnamed hrenew
    have hmade := filterMap_zipIdx (fun x n => some (renew x n)) record? record? (xs.filter named)
      fun x _ n => hrenew x n
    rw [List.filterMap_eq_map'] at hmade
    rw [hmade, List.filterMap_filter]
    refine List.filterMap_congr fun x _ => ?_
    cases hx : record? x with
    | none => simp
    | some record => simp [← hnamed x, hx]
  rw [toRecords, toRecords, canonical]
  simp only
  rw [hrenewed recordOf? _ (fun m n => m.withId (ids n)) _ isSome_recordOf?
      fun m n => recordOf?_withId (ids n) m,
    hrenewed outputRecord? _ (fun output n => { output with id := ids (_ + n) }) _
      isSome_outputRecord? fun output n => rfl]

end Records

section Reading

/-- What is written of a measurement that was made of a record is that record, so the
    same measurement is made again. -/
theorem measurementOf?_written (id id' : RecordId) (source record : Record)
    (m : Measurement α) (hfull : source.Full) (hm : measurementOf? id source = some m)
    (h : recordOf? m = some record) :
    measurementOf? id' record.written = some (m.withId id') := by
  unfold recordOf? at h
  split at h
  · cases h
  · rw [← Option.some.inj h]
    cases source with
    | direct name unit typeB =>
        cases hm
        -- The slots that reading has added are blank.
        have hpadded : Record.typeBFields ((DirectMeasurement.withTypeB (α := α) id name unit
            typeB).typeB.map (·.value)) = typeB := by
          change Record.typeBFields ((DirectMeasurement.fillTypeB
            (List.replicate maxTypeB .blank) typeB).map (·.value)) = typeB
          rw [DirectMeasurement.values_fillTypeB typeB maxTypeB hfull.1]
          exact Record.typeBFields_append_empty typeB _ hfull
        change measurementOf? id' (.direct name unit (Record.typeBFields _)) = _
        rw [hpadded]
        rfl
    | composite name formula =>
        cases hm
        rfl
    | output name displayUnit => cases hm

/-- An output whose display unit is not blank is made again of what is written of it. -/
theorem outputOf?_written (id : RecordId) (output : Output) (record : Record)
    (hunit : ∀ unit ∈ output.displayUnit, Text.isBlankText unit = false)
    (h : outputRecord? output = some record) :
    outputOf? id record.written = some { output with id } := by
  unfold outputRecord? at h
  split at h
  · cases h
  · rw [← Option.some.inj h]
    change some (Output.mk id output.name (Output.unitOf (output.displayUnit.filter _))) = _
    rw [Output.unitOf_filter output.displayUnit hunit]

/-- The document that is made of what is written of another one, if each measurement
    and each output is made again of what is written of it. -/
theorem load_written (document source : Document α) (ids : Nat → RecordId)
    (hmeasured : ∀ m ∈ source.measurements, ∀ record,
      (recordOf? m).map Record.written = some record →
        ∀ n, measurementOf? (ids n) record = some (m.withId (ids n)))
    (hshown : ∀ output ∈ source.outputs, ∀ record,
      (outputRecord? output).map Record.written = some record →
        ∀ id, outputOf? id record = some { output with id }) :
    document.load ids (source.toRecords.map Record.written) =
      { document with
        measurements := (source.canonical ids).measurements
        outputs := (source.canonical ids).outputs } := by
  have hcut := Session.cut_written (source.measurements.filterMap recordOf?)
    (source.outputs.filterMap outputRecord?)
    (fun record hrecord => by
      rcases List.mem_filterMap.mp hrecord with ⟨m, -, hm⟩
      exact isOutput_of_recordOf? m record hm)
    (fun record hrecord => by
      rcases List.mem_filterMap.mp hrecord with ⟨output, -, houtput⟩
      exact isOutput_of_outputRecord? output record houtput)
  have hlength := length_filterMap_named recordOf? (fun m => !m.name.text.isEmpty)
    source.measurements fun m _ => isSome_recordOf? m
  have hmeasurements := filterMap_renewed (fun m => (recordOf? m).map Record.written)
    (fun m => !m.name.text.isEmpty) (fun record n => measurementOf? (ids n) record)
    (fun m n => m.withId (ids n)) source.measurements
    (fun m _ => by rw [Option.isSome_map, isSome_recordOf?]) hmeasured 0
  have houtputs := fun base => filterMap_renewed (fun output => (outputRecord? output).map
      Record.written) (fun output => !output.name.isEmpty)
    (fun record n => outputOf? (ids (base + n)) record)
    (fun output n => { output with id := ids (base + n) }) source.outputs
    (fun output _ => by rw [Option.isSome_map, isSome_outputRecord?])
    (fun output houtput record hrecord n => hshown output houtput record hrecord _) 0
  rw [toRecords, load, canonical]
  simp only
  rw [hcut.1, hcut.2, List.length_map, hlength, List.map_filterMap, List.map_filterMap,
    hmeasurements, houtputs]

/-- What is written of a loaded document makes that document again, without its unnamed
    records. -/
theorem load_written_load (document : Document α) (ids ids' : Nat → RecordId)
    (records : List Record) (hfull : ∀ record ∈ records, record.Full) :
    document.load ids' ((document.load ids records).toRecords.map Record.written) =
      (document.load ids records).canonical ids' := by
  refine load_written document _ ids' (fun m hm record hrecord n => ?_)
    fun output houtput record hrecord id => ?_
  · rcases List.mem_filterMap.mp hm with ⟨⟨source, k⟩, hsource, hmade⟩
    rcases Option.map_eq_some_iff.mp hrecord with ⟨kept, hkept, rfl⟩
    have hmem := (List.mem_filter.mp (List.fst_mem_of_mem_zipIdx hsource)).1
    exact measurementOf?_written (ids k) (ids' n) source kept m (hfull source hmem) hmade hkept
  · rcases List.mem_filterMap.mp houtput with ⟨⟨source, k⟩, -, hmade⟩
    rcases Option.map_eq_some_iff.mp hrecord with ⟨kept, hkept, rfl⟩
    refine outputOf?_written id output kept (fun unit hunit => ?_) hkept
    cases source with
    | direct name unit typeB => cases hmade
    | composite name formula => cases hmade
    | output name displayUnit =>
        cases hmade
        exact Output.notBlank_of_unitOf displayUnit unit hunit

/-- The written query of a document that was read from any query is read as the
    document's named records in their order, the measurements before the outputs, and
    it is written again as it is. -/
theorem ofQuery_toQuery [QueryCodec] [LawfulQueryCodec] [Scalar α]
    (ids ids' : Nat → RecordId) (query : String) (document : Document α)
    (h : ofQuery ids query = .ok document) :
    ofQuery ids' document.toQuery = .ok (document.canonical ids') ∧
      (document.canonical ids').toQuery = document.toQuery := by
  rw [ofQuery] at h
  simp only [Outcome.bind_eq_ok, Outcome.pure_eq_ok] at h
  rcases h with ⟨records, hrecords, rfl⟩
  have hread : ∀ record ∈ records, record.CommaFree ∧ record.Full := by
    intro record hrecord
    rcases Record.ofPair?_of_decodeAll query records hrecords record hrecord with
      ⟨key, value, hpair⟩
    exact ⟨Record.commaFree_of_ofPair? key value record hpair,
      Record.full_of_ofPair? key value record hpair⟩
  have hcommas : ∀ record ∈ ((empty : Document α).load ids records).toRecords,
      record.CommaFree :=
    commaFree_of_load empty ids records (fun record hrecord => (hread record hrecord).1)
      fun name unit typeB hrecord => (hread _ hrecord).2.1
  refine ⟨?_, by rw [toQuery, toRecords_canonical, toQuery]⟩
  rw [ofQuery, toQuery, Record.decodeAll_encodeAll, Record.filterMap_readBack? _ hcommas]
  rw [← load_written_load empty ids ids' records fun record hrecord => (hread record hrecord).2]
  rfl

end Reading

section Example

open scoped Standard

/-- A query with a mark, plus signs, too many limits, an unnamed record, a pair of
    another kind and a blank display unit, and its canonical form. -/
theorem ofQuery_toQuery_blanks :
    let query :=
      "?d=l%2Ccm%2C0.1+cm%2C%2C0.2%2C0.3&o=u%2Cv%2C+&d=%2Cs&z=1&c=v%2Cmax%28l,+t%29"
    let document : Document Float := empty.load .serial [.direct "l" "cm" ["0.1 cm", "0.2"],
      .output "v" (some " "), .direct "" "s" [], .composite "v" "max(l, t)"]
    ofQuery .serial query = .ok document ∧
      document.toQuery = "d=l%2Ccm%2C0.1%20cm%2C0.2&c=v%2Cmax%28l%2C%20t%29&o=u%2Cv" ∧
      ofQuery .serial document.toQuery = .ok (document.canonical .serial) ∧
      (document.canonical .serial).toQuery = document.toQuery := by
  intro query document
  have hrecords : Record.decodeAll query = .ok [.direct "l" "cm" ["0.1 cm", "0.2"],
      .output "v" (some " "), .direct "" "s" [], .composite "v" "max(l, t)"] :=
    Outcome.eq_ok_of_toOption _ _ (by decide +kernel)
  have hread : ofQuery .serial query = .ok document := by
    rw [ofQuery, hrecords]
    rfl
  refine ⟨hread, ?_, ofQuery_toQuery .serial .serial query document hread⟩
  rw [toQuery, toRecords_load]
  decide +kernel

end Example

end Document

end Metrology
