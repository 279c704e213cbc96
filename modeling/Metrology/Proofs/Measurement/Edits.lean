import Mathlib.Data.List.Basic
import Metrology.Measurement.Direct
import Metrology.Proofs.Outcome
import Metrology.Scalar.Double

/-!
# Edits of a direct measurement

The numbers of a direct measurement and the count of its digits are derived from three
fields that different edits change: the samples as typed, the zero offset and the unit,
which a change of the name may set as well. However the edits are mixed, and whether or
not some of them fail, deriving the numbers once more changes nothing. So what a
measurement holds does not tell in which order it was edited.

Every text that is kept is a finite number, so no number is missing and every text was
written with a digit: a finite numeral has one before its power of ten.

## Main definitions

* `DirectMeasurement.Edit`: The edits.
* `DirectMeasurement.after`: A measurement after edits.
* `DirectMeasurement.Settled`: What every edit keeps.
* `DirectMeasurement.UpToDate`: What the fields of a measurement say about each other.

## Theorems

* `Sample.significantDigits_pos`: A sample was written with a digit.
* `DirectMeasurement.Settled.edited`, `DirectMeasurement.Settled.after`: Edits keep a
  measurement settled.
* `DirectMeasurement.Settled.apply_eq_error`: When an edit fails.
* `DirectMeasurement.edited_of_error`: An edit that fails leaves everything as it was.
* `DirectMeasurement.upToDate_after`: Every measurement that edits lead to is up to date.
-/

namespace Metrology

section Digits

/-- What a numeral shows before its power of ten. -/
def Numeral.mantissa (cs : List Char) : List Char := cs.takeWhile fun c => c ≠ 'e' ∧ c ≠ 'E'

theorem Numeral.mantissa_cons (c : Char) (cs : List Char) (h : c ≠ 'e' ∧ c ≠ 'E') :
    mantissa (c :: cs) = c :: mantissa cs :=
  List.takeWhile_cons_of_pos (decide_eq_true h)

theorem Numeral.mem_mantissa_of_isDigit (c : Char) (cs : List Char) (h : c.isDigit = true) :
    c ∈ mantissa (c :: cs) := by
  have hc : c ≠ 'e' ∧ c ≠ 'E' := by constructor <;> rintro rfl <;> cases h
  rw [mantissa_cons c cs hc]
  exact List.mem_cons_self

/-- A numeral of digits has one of them before its power of ten. -/
theorem Numeral.digit_of_unsigned? (cs : List Char) (d : Decimal) (h : unsigned? cs = some d) :
    ∃ c ∈ mantissa cs, c.isDigit = true := by
  cases cs with
  | nil => cases h
  | cons c rest =>
      by_cases hc : c.isDigit = true
      · exact ⟨c, mem_mantissa_of_isDigit c rest hc, hc⟩
      · rw [unsigned?, List.takeWhile_cons_of_neg hc, List.dropWhile_cons_of_neg hc] at h
        by_cases hpoint : c = '.'
        · -- There is no digit before the point, so there is one behind it.
          subst hpoint
          rw [mantissa_cons '.' rest (by decide)]
          cases rest with
          | nil => cases h
          | cons c' rest' =>
              by_cases hc' : c'.isDigit = true
              · exact ⟨c', List.mem_cons_of_mem _ (mem_mantissa_of_isDigit c' rest' hc'), hc'⟩
              · simp only [List.takeWhile_cons_of_neg hc', and_self, if_true] at h
                cases h
        · simp [hpoint] at h

/-- A finite numeral has a digit before its power of ten. -/
theorem Numeral.digit_of_read? (text : String) (negative : Bool) (magnitude : Decimal)
    (h : read? text = some (.finite negative magnitude)) :
    ∃ c ∈ mantissa text.toList, c.isDigit = true := by
  have hmagnitude : ∀ negative' cs, magnitude? negative' cs = some (.finite negative magnitude) →
      ∃ c ∈ mantissa cs, c.isDigit = true := by
    intro negative' cs hcs
    rw [magnitude?] at hcs
    split at hcs
    · cases hcs
    · split at hcs
      · cases hcs
      · rcases Option.map_eq_some_iff.mp hcs with ⟨d, hd, -⟩
        exact digit_of_unsigned? cs d hd
  -- A sign does not end the mantissa, so what follows it is still there.
  have hsigned : ∀ sign cs, sign ≠ 'e' ∧ sign ≠ 'E' → (∃ c ∈ mantissa cs, c.isDigit = true) →
      ∃ c ∈ mantissa (sign :: cs), c.isDigit = true := by
    rintro sign cs hsign ⟨c, hmem, hc⟩
    rw [mantissa_cons sign cs hsign]
    exact ⟨c, List.mem_cons_of_mem _ hmem, hc⟩
  rw [read?] at h
  split at h
  · rename_i cs hcs
    rw [hcs]
    exact hsigned _ cs (by decide) (hmagnitude true cs h)
  · rename_i cs hcs
    rw [hcs]
    exact hsigned _ cs (by decide) (hmagnitude false cs h)
  · exact hmagnitude false _ h

variable {α : Type} [Scalar α]

/-- A sample was written with a digit. -/
theorem Sample.significantDigits_pos (entry : String)
    (h : (parse? (α := α) entry).isSome = true) : 0 < significantDigits entry := by
  rw [parse?] at h
  split at h
  · rename_i negative magnitude hread
    rcases Numeral.digit_of_read? _ negative magnitude hread with ⟨c, hmem, hc⟩
    rw [Text.trim, String.toList_ofList] at hmem
    exact List.length_pos_of_mem (List.mem_filter.mpr ⟨hmem, hc⟩)
  · cases h

/-- There are no digits only if there are no samples. -/
theorem Sample.minDigits_eq_zero (entries : List String)
    (h : ∀ entry ∈ entries, (parse? (α := α) entry).isSome = true) :
    minDigits entries = 0 ↔ entries = [] := by
  rw [minDigits]
  cases hmin : (entries.map significantDigits).min? with
  | none =>
      rw [List.min?_eq_none_iff, List.map_eq_nil_iff] at hmin
      simp only [Option.getD_none, hmin]
  | some n =>
      rcases List.mem_map.mp (List.min?_mem hmin) with ⟨entry, hentry, rfl⟩
      have hpos := significantDigits_pos entry (h entry hentry)
      rw [Option.getD_some]
      exact iff_of_false (Nat.ne_of_gt hpos) (List.ne_nil_of_mem hentry)

end Digits

namespace DirectMeasurement

section Slots

variable {α : Type}

theorem length_fillTypeB (entries : List TypeBEntry) :
    ∀ values, (fillTypeB entries values).length = entries.length := by
  induction entries with
  | nil => exact fun values => by cases values <;> rfl
  | cons entry rest ih =>
      intro values
      cases values with
      | nil => rfl
      | cons value values => rw [fillTypeB, List.length_cons, ih values, List.length_cons]

end Slots

end DirectMeasurement

namespace MeasurementEdit

section Runs

variable {α : Type}

/-- An entry that has a slot is put there; without a slot nothing changes. -/
@[simp]
theorem run_setTypeB (m : DirectMeasurement α) (index : Nat) (entry : TypeBEntry) :
    (setTypeB index entry).run m =
      if index < maxTypeB then
        (.ok ⟨⟩, { m with
          typeB := (m.typeB ++ List.replicate (index + 1 - m.typeB.length) TypeBEntry.blank).set
            index entry })
      else (.error (.typeBSlot index), m) := by
  by_cases hindex : index < maxTypeB
  · rw [setTypeB, if_neg (Nat.not_le.mpr hindex), if_pos hindex]
    rfl
  · rw [setTypeB, if_pos (Nat.not_lt.mp hindex), if_neg hindex]
    rfl

/-- A measurement with all its slots gets none in addition. -/
theorem setTypeB_of_lt (m : DirectMeasurement α) (index : Nat) (entry : TypeBEntry)
    (hindex : index < maxTypeB) : ∃ typeB, (setTypeB index entry).run m = (.ok ⟨⟩, { m with typeB }) ∧
      (m.typeB.length = maxTypeB → typeB.length = maxTypeB) := by
  refine ⟨_, by rw [run_setTypeB, if_pos hindex], fun hfull => ?_⟩
  have hnone : index + 1 - m.typeB.length = 0 := by omega
  rw [hnone, List.replicate_zero, List.append_nil, List.length_set]
  exact hfull

@[simp]
theorem run_clearTypeB (m : DirectMeasurement α) (index : Nat) :
    (clearTypeB index).run m =
      if index < m.typeB.length then (.ok ⟨⟩, { m with typeB := m.typeB.set index .blank })
      else (.error (.typeBSlot index), m) := by
  rw [clearTypeB, Outcome.run_bind, Outcome.run_get]
  by_cases hindex : index < m.typeB.length
  · simp only [if_neg (Nat.not_le.mpr hindex), if_pos hindex]
    rfl
  · simp only [if_pos (Nat.not_lt.mp hindex), if_neg hindex]
    rfl

@[simp]
theorem run_removeSample [Scalar α] (m : DirectMeasurement α) (index : Nat) :
    (removeSample index).run m =
      if index < m.inputs.length then
        (.ok ⟨⟩, DirectMeasurement.recompute { m with inputs := m.inputs.eraseIdx index })
      else (.error (.sampleIndex index), m) := by
  rw [removeSample, Outcome.run_bind, Outcome.run_get]
  by_cases hindex : index < m.inputs.length
  · simp only [if_neg (Nat.not_le.mpr hindex), if_pos hindex]
    rfl
  · simp only [if_pos (Nat.not_lt.mp hindex), if_neg hindex]
    rfl

end Runs

end MeasurementEdit

namespace DirectMeasurement

/-- A change of a direct measurement. -/
inductive Edit (α : Type) where
  | commit (entries : List String) (zeroOffset : Option α)
  | removeSample (index : Nat)
  | setUnit (unit : String)
  | rename (name : String)
  | setTypeB (index : Nat) (entry : TypeBEntry)
  | clearTypeB (index : Nat)

/-- A measurement without samples, as it is made. -/
inductive New {α : Type} : DirectMeasurement α → Prop
  | empty (id : RecordId) (name unit : String) : New (.empty id name unit)
  | withTypeB (id : RecordId) (name unit : String) (values : List String) :
      New (.withTypeB id name unit values)

/-- The offset after an edit: new samples come with one of their own. -/
def Edit.offset {α : Type} (before : Option α) : Edit α → Option α
  | .commit _ zeroOffset => zeroOffset
  | .removeSample _ | .setUnit _ | .rename _ | .setTypeB _ _ | .clearTypeB _ => before

/-- The offset after edits: that of the last samples. -/
def Edit.lastOffset {α : Type} (edits : List (Edit α)) : Option α :=
  edits.foldl (fun offset edit => edit.offset offset) none

/-- Why an edit of a measurement with so many samples fails, if it does. -/
def Edit.refusal? {α : Type} (samples : Nat) : Edit α → Option MeasurementError
  | .removeSample index => if index < samples then none else some (.sampleIndex index)
  | .setTypeB index _ | .clearTypeB index =>
    if index < maxTypeB then none else some (.typeBSlot index)
  | .commit _ _ | .setUnit _ | .rename _ => none

variable {α : Type} [Scalar α]

/-- Carries out an edit of a measurement in place. -/
def apply : Edit α → MeasurementEdit α PUnit
  | .commit entries zeroOffset => modify (·.commit entries zeroOffset)
  | .removeSample index => .removeSample index
  | .setUnit unit => modify (·.setUnit unit)
  | .rename name => modify (·.rename name)
  | .setTypeB index entry => .setTypeB index entry
  | .clearTypeB index => .clearTypeB index

/-- What an edit leaves of a measurement, whether or not it fails. -/
def edited (m : DirectMeasurement α) (edit : Edit α) : DirectMeasurement α := ((apply edit).run m).2

/-- A measurement after edits. -/
def after (m : DirectMeasurement α) (edits : List (Edit α)) : DirectMeasurement α :=
  edits.foldl edited m

/-- A measurement whose texts are numbers, that stays as it is when its numbers are
    derived once more, and that has all its slots. -/
structure Settled (m : DirectMeasurement α) : Prop where
  parses : ∀ entry ∈ m.inputs, (Sample.parse? (α := α) entry).isSome = true
  recompute_eq : m.recompute = m
  slots : m.typeB.length = maxTypeB

section Settled

theorem New.settled (m : DirectMeasurement α) (h : New m) : m.Settled := by
  cases h with
  | empty id name unit => exact ⟨fun entry hentry => absurd hentry List.not_mem_nil, rfl, rfl⟩
  | withTypeB id name unit values =>
      exact ⟨fun entry hentry => absurd hentry List.not_mem_nil, rfl, length_fillTypeB _ values⟩

/-- Whatever has been changed, a measurement is settled by deriving its numbers. -/
theorem settled_recompute (m : DirectMeasurement α)
    (hparses : ∀ entry ∈ m.inputs, (Sample.parse? (α := α) entry).isSome = true)
    (hslots : m.typeB.length = maxTypeB) : m.recompute.Settled :=
  -- Nothing that is read here is written, so a second time is like the first.
  ⟨hparses, rfl, hslots⟩

theorem Settled.commit (m : DirectMeasurement α) (h : m.Settled) (entries : List String)
    (zeroOffset : Option α) : (m.commit entries zeroOffset).Settled :=
  settled_recompute _ (fun _ hentry => (List.mem_filter.mp hentry).2) h.slots

theorem Settled.removeSample (m : DirectMeasurement α) (h : m.Settled) (index : Nat) :
    ((MeasurementEdit.removeSample index).run m).2.Settled := by
  rw [MeasurementEdit.run_removeSample]
  split
  · exact settled_recompute _ (fun entry hentry => h.parses entry (List.mem_of_mem_eraseIdx hentry))
      h.slots
  · exact h

theorem Settled.setUnit (m : DirectMeasurement α) (h : m.Settled) (unit : String) :
    (m.setUnit unit).Settled :=
  settled_recompute _ h.parses h.slots

/-- Names do not take part in the derivation. -/
theorem Settled.withName (m : DirectMeasurement α) (h : m.Settled) (name : Name) :
    { m with name }.Settled :=
  ⟨h.parses, congrArg (fun m : DirectMeasurement α => { m with name }) h.recompute_eq, h.slots⟩

theorem Settled.rename (m : DirectMeasurement α) (h : m.Settled) (name : String) :
    (m.rename name).Settled := by
  have hnamed := h.withName m ⟨name⟩
  -- While there is no unit the name may bring one, and the numbers are derived again.
  rw [DirectMeasurement.rename]
  split
  · split
    · exact hnamed.setUnit _ _
    · exact hnamed
  · exact hnamed

/-- Neither do the type-B entries. -/
theorem Settled.withTypeB (m : DirectMeasurement α) (h : m.Settled) (typeB : List TypeBEntry)
    (hslots : typeB.length = maxTypeB) : { m with typeB }.Settled :=
  ⟨h.parses, congrArg (fun m : DirectMeasurement α => { m with typeB }) h.recompute_eq, hslots⟩

/-- An edit keeps a measurement settled, whether or not it succeeds. -/
theorem Settled.edited (m : DirectMeasurement α) (h : m.Settled) (edit : Edit α) :
    (m.edited edit).Settled := by
  cases edit with
  | commit entries zeroOffset => exact h.commit m entries zeroOffset
  | removeSample index => exact h.removeSample m index
  | setUnit unit => exact h.setUnit m unit
  | rename name => exact h.rename m name
  | setTypeB index entry =>
      by_cases hindex : index < maxTypeB
      · rcases MeasurementEdit.setTypeB_of_lt m index entry hindex with ⟨typeB, hset, hslots⟩
        rw [DirectMeasurement.edited, apply, hset]
        exact h.withTypeB m typeB (hslots h.slots)
      · rw [DirectMeasurement.edited, apply, MeasurementEdit.run_setTypeB, if_neg hindex]
        exact h
  | clearTypeB index =>
      rw [DirectMeasurement.edited, apply, MeasurementEdit.run_clearTypeB]
      split
      · exact h.withTypeB m _ (by rw [List.length_set, h.slots])
      · exact h

theorem Settled.after (edits : List (Edit α)) :
    ∀ m : DirectMeasurement α, m.Settled → (m.after edits).Settled := by
  induction edits with
  | nil => exact fun m h => h
  | cons edit rest ih => exact fun m h => ih (m.edited edit) (h.edited m edit)

/-- An edit of a settled measurement fails exactly if its position is out of range. -/
theorem Settled.apply_eq_error (m : DirectMeasurement α) (h : m.Settled) (edit : Edit α)
    (failure : MeasurementError) :
    ((apply edit).run m).1 = .error failure ↔ edit.refusal? m.inputs.length = some failure := by
  cases edit with
  | commit entries zeroOffset => exact iff_of_false nofun nofun
  | setUnit unit => exact iff_of_false nofun nofun
  | rename name => exact iff_of_false nofun nofun
  | removeSample index =>
      rw [apply, MeasurementEdit.run_removeSample, Edit.refusal?]
      split <;> simp
  | setTypeB index entry =>
      rw [apply, MeasurementEdit.run_setTypeB, Edit.refusal?]
      split <;> simp
  | clearTypeB index =>
      -- The position is compared with the slots that there are, which are all of them.
      rw [apply, MeasurementEdit.run_clearTypeB, Edit.refusal?, h.slots]
      split <;> simp

omit [Scalar α] in
/-- An edit in two cases, of which the one that fails leaves the measurement alone. -/
theorem snd_of_ite_error {c : Prop} [Decidable c] (m m' : DirectMeasurement α)
    (e failure : MeasurementError)
    (h : (if c then ((.ok ⟨⟩ : Except MeasurementError PUnit), m') else (.error e, m)).1 =
      .error failure) :
    (if c then ((.ok ⟨⟩ : Except MeasurementError PUnit), m') else (.error e, m)).2 = m := by
  split at h
  · cases h
  · next hc => rw [if_neg hc]

/-- An edit that fails leaves every field of a measurement as it was. -/
theorem edited_of_error (m : DirectMeasurement α) (edit : Edit α) (failure : MeasurementError)
    (h : ((apply edit).run m).1 = .error failure) : m.edited edit = m := by
  rw [edited]
  cases edit with
  | commit entries zeroOffset => cases h
  | setUnit unit => cases h
  | rename name => cases h
  | removeSample index =>
      rw [apply, MeasurementEdit.run_removeSample] at h ⊢
      exact snd_of_ite_error _ _ _ failure h
  | setTypeB index entry =>
      rw [apply, MeasurementEdit.run_setTypeB] at h ⊢
      exact snd_of_ite_error _ _ _ failure h
  | clearTypeB index =>
      rw [apply, MeasurementEdit.run_clearTypeB] at h ⊢
      exact snd_of_ite_error _ _ _ failure h

end Settled

section Offsets

/-- What an edit leaves of the offset. -/
theorem zeroOffset_edited (m : DirectMeasurement α) (edit : Edit α) :
    (m.edited edit).zeroOffset = edit.offset m.zeroOffset := by
  cases edit with
  | commit entries zeroOffset => rfl
  | setUnit unit => rfl
  | rename name =>
      change (m.rename name).zeroOffset = m.zeroOffset
      rw [DirectMeasurement.rename]
      split
      · split <;> rfl
      · rfl
  | removeSample index =>
      rw [edited, apply, MeasurementEdit.run_removeSample]
      split <;> rfl
  | setTypeB index entry =>
      rw [edited, apply, MeasurementEdit.run_setTypeB]
      split <;> rfl
  | clearTypeB index =>
      rw [edited, apply, MeasurementEdit.run_clearTypeB]
      split <;> rfl

theorem zeroOffset_after (edits : List (Edit α)) :
    ∀ m : DirectMeasurement α, (m.after edits).zeroOffset =
      edits.foldl (fun offset edit => edit.offset offset) m.zeroOffset := by
  induction edits with
  | nil => exact fun m => rfl
  | cons edit rest ih =>
      intro m
      rw [after, List.foldl_cons, ← after, ih, zeroOffset_edited, List.foldl_cons]

/-- The offset that is stored after edits is that of the last samples. -/
theorem New.zeroOffset_after (m : DirectMeasurement α) (h : New m) (edits : List (Edit α)) :
    (m.after edits).zeroOffset = Edit.lastOffset edits := by
  rw [DirectMeasurement.zeroOffset_after, Edit.lastOffset]
  cases h <;> rfl

/-- Whether the unit of a measurement is a length. -/
def MeasuresLength (m : DirectMeasurement α) : Prop :=
  ∃ unit : CompoundUnit α, CompoundUnit.read m.unit = .ok unit ∧ unit.isNone = false ∧
    unit.dimension = .ok { length := 1 }

theorem supportsZeroCorrection_iff (m : DirectMeasurement α) :
    m.supportsZeroCorrection = true ↔ m.MeasuresLength := by
  rw [supportsZeroCorrection, MeasuresLength]
  cases hunit : CompoundUnit.read (α := α) m.unit with
  | error e => simp
  | ok unit =>
      cases hdimension : unit.dimension with
      | error e => simp [hdimension]
      | ok dimension => simp [hdimension]

theorem appliedOffset_of_measuresLength (m : DirectMeasurement α) (h : m.MeasuresLength) :
    m.appliedOffset = m.zeroOffset.getD Arithmetic.zero := by
  rw [appliedOffset, if_pos (m.supportsZeroCorrection_iff.mpr h)]

theorem appliedOffset_of_not_measuresLength (m : DirectMeasurement α) (h : ¬ m.MeasuresLength) :
    m.appliedOffset = Arithmetic.zero := by
  rw [appliedOffset, if_neg (mt m.supportsZeroCorrection_iff.mp h)]

end Offsets

section UpToDate

/-- Whether the numbers of a measurement are those of its texts, less an offset. -/
def Corrected (m : DirectMeasurement α) (offset : α) : Prop :=
  ∀ (i : Nat) (entry : String), m.inputs[i]? = some entry →
    ∃ x, Sample.parse? entry = some x ∧ m.values[i]? = some (x - offset)

/-- A measurement in which nothing that is derived is out of date. -/
structure UpToDate (m : DirectMeasurement α) : Prop where
  length_eq : m.inputs.length = m.values.length
  lengths : m.MeasuresLength → m.Corrected (m.zeroOffset.getD Arithmetic.zero)
  others : ¬ m.MeasuresLength → m.Corrected Arithmetic.zero
  minDigits_eq : m.minDigits = Sample.minDigits m.inputs
  minDigits_eq_zero : m.minDigits = 0 ↔ m.inputs = []
  slots : m.typeB.length = 2

/-- The numbers of a settled measurement, one for each text. -/
theorem Settled.values_eq (m : DirectMeasurement α) (h : m.Settled) :
    m.values = m.inputs.map fun entry =>
      (Sample.parse? entry).getD Arithmetic.zero - m.appliedOffset := by
  -- Every text is a number, so none is dropped on the way and positions are kept.
  have hparsed : m.inputs.filterMap Sample.parse? =
      m.inputs.map fun entry => (Sample.parse? entry).getD (Arithmetic.zero (α := α)) := by
    rw [List.filterMap_eq_map_iff_forall_eq_some]
    intro entry hentry
    rcases Option.isSome_iff_exists.mp (h.parses entry hentry) with ⟨x, hx⟩
    rw [hx, Option.getD_some]
  have hvalues : m.values = (m.inputs.filterMap Sample.parse?).map (· - m.appliedOffset) :=
    (congrArg values h.recompute_eq).symm
  rw [hvalues, hparsed, List.map_map]
  rfl

theorem Settled.minDigits_eq (m : DirectMeasurement α) (h : m.Settled) :
    m.minDigits = Sample.minDigits m.inputs :=
  (congrArg DirectMeasurement.minDigits h.recompute_eq).symm

theorem Settled.corrected (m : DirectMeasurement α) (h : m.Settled) :
    m.Corrected m.appliedOffset := by
  intro i entry hentry
  rcases Option.isSome_iff_exists.mp (h.parses entry (List.mem_of_getElem? hentry)) with ⟨x, hx⟩
  refine ⟨x, hx, ?_⟩
  rw [h.values_eq, List.getElem?_map, hentry, Option.map_some, hx, Option.getD_some]

theorem Settled.upToDate (m : DirectMeasurement α) (h : m.Settled) : m.UpToDate where
  length_eq := by rw [h.values_eq, List.length_map]
  lengths hlength := m.appliedOffset_of_measuresLength hlength ▸ h.corrected
  others hother := m.appliedOffset_of_not_measuresLength hother ▸ h.corrected
  minDigits_eq := h.minDigits_eq
  minDigits_eq_zero := by rw [h.minDigits_eq, Sample.minDigits_eq_zero m.inputs h.parses]
  slots := h.slots

/-- Settled measurements with the same texts, offset and unit have the same numbers. -/
theorem Settled.values_congr (m m' : DirectMeasurement α) (h : m.Settled) (h' : m'.Settled)
    (hinputs : m'.inputs = m.inputs) (hoffset : m'.zeroOffset = m.zeroOffset)
    (hunit : m'.unit = m.unit) : m'.values = m.values := by
  have happlied : m'.appliedOffset = m.appliedOffset := by
    rw [appliedOffset, appliedOffset, supportsZeroCorrection, supportsZeroCorrection, hunit, hoffset]
  rw [h.values_eq, h'.values_eq, hinputs, happlied]

/-- However a measurement was edited, its numbers and the count of its digits are those
    that its texts, its unit and the offset of the last samples give. An edit fails if its
    position is out of range, and then changes nothing. -/
theorem upToDate_after (m : DirectMeasurement α) (hm : New m) (edits : List (Edit α)) :
    (m.after edits).UpToDate ∧
    (m.after edits).zeroOffset = Edit.lastOffset edits ∧
    (∀ edit failure, ((apply edit).run (m.after edits)).1 = .error failure ↔
      edit.refusal? (m.after edits).inputs.length = some failure) ∧
    (∀ edit failure, ((apply edit).run (m.after edits)).1 = .error failure →
      m.after (edits ++ [edit]) = m.after edits) ∧
    ∀ m' edits', New m' → (m'.after edits').inputs = (m.after edits).inputs →
      Edit.lastOffset edits' = Edit.lastOffset edits → (m'.after edits').unit = (m.after edits).unit →
        (m'.after edits').values = (m.after edits).values ∧
          (m'.after edits').minDigits = (m.after edits).minDigits := by
  have hsettled := (hm.settled m).after edits
  refine ⟨hsettled.upToDate, hm.zeroOffset_after m edits, hsettled.apply_eq_error, ?_, ?_⟩
  · intro edit failure hfails
    rw [after, List.foldl_concat, ← after]
    exact edited_of_error _ edit failure hfails
  · intro m' edits' hm' hinputs hoffset hunit
    have hsettled' := (hm'.settled m').after edits'
    refine ⟨hsettled.values_congr _ _ hsettled' hinputs ?_ hunit, ?_⟩
    · rw [hm'.zeroOffset_after, hm.zeroOffset_after, hoffset]
    · rw [hsettled'.minDigits_eq, hsettled.minDigits_eq, hinputs]

end UpToDate

section Doubles

/-- Samples of a length that are entered before its name suggests a unit. -/
def editsByName : List (Edit Float) :=
  [.commit ["1.20", " 0.9 ", "n/a"] (some 0.1), .removeSample 2, .rename "l"]

/-- The same samples, entered once the unit is there and next to one that is removed. -/
def editsByUnit : List (Edit Float) :=
  [.setUnit "cm", .clearTypeB 2, .commit ["7", "1.20", "0.9"] (some 0.1), .removeSample 0]

/-- A length is up to date after its name has suggested a unit, and holds what it holds
    when the unit comes first. -/
theorem upToDate_after_editsByName :
    ((empty ⟨1⟩ "x" "").after editsByName).UpToDate ∧
      ((empty ⟨1⟩ "x" "").after editsByName).values = [1.2 - 0.1, 0.9 - 0.1] ∧
      ((withTypeB ⟨2⟩ "x" "s" ["0.05"]).after editsByUnit).values =
        ((empty ⟨1⟩ "x" "").after editsByName).values ∧
      ((withTypeB ⟨2⟩ "x" "s" ["0.05"]).after editsByUnit).minDigits =
        ((empty ⟨1⟩ "x" "").after editsByName).minDigits := by
  have hafter := upToDate_after (empty ⟨1⟩ "x" "") (.empty ⟨1⟩ "x" "") editsByName
  refine ⟨hafter.1, by decide, ?_⟩
  exact hafter.2.2.2.2 (withTypeB ⟨2⟩ "x" "s" ["0.05"]) editsByUnit
    (.withTypeB ⟨2⟩ "x" "s" ["0.05"]) (by decide) rfl (by decide)

end Doubles

end DirectMeasurement

end Metrology
