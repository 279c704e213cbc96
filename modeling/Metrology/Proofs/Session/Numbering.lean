import Mathlib.Data.List.Perm.Subperm
import Metrology.Proofs.Session.History

/-!
# Numbers of records

A session gives every measurement that comes into the document the identifier of
the next number, whether it is added or imported. Identifiers of different
numbers differ, numbers only grow, and no command gives a measurement another
identifier. So no two measurements of a session share one.

## Main definitions

* `LawfulIdSource`: What is relied on in a source of identifiers.
* `Session.Numbered`: A document whose measurements have numbers of their own.

## Theorems

* `RecordId.serial_injective`: Identifiers of different numbers differ.
* `Session.Numbered.carried`: Every command keeps the measurements apart.
* `Session.numbered_after`: After any frames no two measurements share an identifier.
-/

namespace Metrology

namespace RecordId

/-- Decimal digits that are read as hexadecimal ones still tell the number. -/
theorem eq_of_decimalAsHex (fuel : Nat) :
    ∀ fuel' n n', n ≤ fuel → n' ≤ fuel' → decimalAsHex fuel n = decimalAsHex fuel' n' → n = n' := by
  induction fuel with
  | zero =>
      intro fuel'
      induction fuel' with
      | zero => intro n n' hn hn' _; omega
      | succ fuel' ih =>
          intro n n' hn hn' h
          rw [decimalAsHex, decimalAsHex] at h
          split at h
          · omega
          · -- All digits are zero, so there is nothing in front of the last one either.
            have hfront : n = n' / 10 := ih n (n' / 10) hn (by omega) (by rw [decimalAsHex]; omega)
            omega
  | succ fuel ih =>
      intro fuel' n n' hn hn' h
      rw [decimalAsHex] at h
      split at h
      · next hzero =>
        rw [hzero]
        exact ih fuel' 0 n' (Nat.zero_le _) hn' (by cases fuel <;> rw [decimalAsHex] <;> simpa using h)
      · cases fuel' with
        | zero =>
            rw [decimalAsHex] at h
            have hfront : n / 10 = 0 :=
              ih 0 (n / 10) 0 (by omega) (Nat.zero_le _) (by rw [decimalAsHex]; omega)
            omega
        | succ fuel' =>
            rw [decimalAsHex] at h
            split at h
            · have hfront : n / 10 = 0 :=
                ih 0 (n / 10) 0 (by omega) (Nat.zero_le _) (by rw [decimalAsHex]; omega)
              omega
            · have hfront : n / 10 = n' / 10 :=
                ih fuel' (n / 10) (n' / 10) (by omega) (by omega) (by omega)
              omega

/-- Identifiers of different numbers differ. -/
theorem serial_injective : Function.Injective serial := by
  intro n n' h
  rw [serial, serial, Uuid.mk.injEq] at h
  exact eq_of_decimalAsHex n n' n n' (Nat.le_refl _) (Nat.le_refl _) (Nat.add_left_cancel h)

end RecordId

/-- What is relied on in a source of identifiers: different numbers get different ones. -/
class LawfulIdSource [IdSource] : Prop where
  serial_injective : Function.Injective IdSource.serial

namespace Standard

scoped instance lawful_numberedIds : LawfulIdSource := ⟨RecordId.serial_injective⟩

end Standard

namespace Session

/-- The identifier of a new measurement is the one it is created under. -/
@[simp]
theorem id_create (id : RecordId) (new : NewMeasurement) : (create id new).id = id := by
  cases new with
  | direct name unit => exact DocumentEdit.id_rename _ name
  | composite name formula => rfl

variable [IdSource]

/-- A document whose measurements have numbers of their own, all below the next
    one. -/
structure Numbered (document : Document Float) (next : Nat) : Prop where
  distinct : (document.measurements.map Measurement.id).Nodup
  below : ∀ m ∈ document.measurements, ∃ n < next, m.id = IdSource.serial n

namespace Numbered

variable (document : Document Float) (next : Nat)

/-- Fewer measurements in any order, under numbers given out already, are numbered
    too. -/
theorem of_subperm (h : Numbered document next) (document' : Document Float) (next' : Nat)
    (hids : (document'.measurements.map Measurement.id).Subperm
      (document.measurements.map Measurement.id)) (hnext : next ≤ next') :
    Numbered document' next' := by
  refine ⟨?_, fun m hm => ?_⟩
  · rcases hids with ⟨kept, hperm, hsublist⟩
    exact hperm.nodup_iff.mp (h.distinct.sublist hsublist)
  · rcases List.mem_map.mp (hids.subset (List.mem_map_of_mem hm)) with ⟨other, hother, hid⟩
    rcases h.below other hother with ⟨n, hn, hserial⟩
    exact ⟨n, by omega, by rw [← hid, hserial]⟩

/-- A measurement under the next number is a new one. -/
theorem add [LawfulIdSource] (h : Numbered document next) (m : Measurement Float)
    (hid : m.id = IdSource.serial next) :
    Numbered { document with measurements := document.measurements ++ [m] } (next + 1) := by
  refine ⟨?_, fun other hother => ?_⟩
  · simp only [List.map_append, List.map_cons, List.map_nil]
    refine List.nodup_append.mpr ⟨h.distinct, List.nodup_singleton _, ?_⟩
    intro id hmem id' hnew heq
    rcases List.mem_map.mp hmem with ⟨other, hother, rfl⟩
    rcases h.below other hother with ⟨n, hn, hserial⟩
    rw [List.mem_singleton.mp hnew, hid, hserial] at heq
    have := LawfulIdSource.serial_injective heq
    omega
  · rcases List.mem_append.mp hother with hother | hother
    · rcases h.below other hother with ⟨n, hn, hserial⟩
      exact ⟨n, by omega, hserial⟩
    · exact ⟨next, by omega, by rw [List.mem_singleton.mp hother, hid]⟩

/-- A measurement with the same identifier in the place of another. -/
theorem put (h : Numbered document next) (id : RecordId) (m m' : Measurement Float)
    (hfound : document.measurement? id = some m) (hid : m'.id = m.id) :
    Numbered (document.putMeasurement id m') next := by
  refine h.of_subperm document next _ next ?_ (Nat.le_refl _)
  rcases document.putMeasurement_split id m hfound with ⟨-, before, after, hms, -, hput⟩
  rw [hput m', hms, List.map_append, List.map_append, List.map_cons, List.map_cons, hid]

/-- Loaded measurements get the numbers from the next one on. -/
theorem load [LawfulIdSource] (records : List Record) :
    Numbered (document.load (fun n => IdSource.serial (next + n)) records) (next + records.length) := by
  have hids := document.ids_load (fun n => IdSource.serial (next + n)) records
  refine ⟨?_, fun m hm => ?_⟩
  · rw [hids]
    refine List.nodup_range.map fun n n' h => ?_
    have := LawfulIdSource.serial_injective h
    omega
  · have hid := List.mem_map_of_mem (f := Measurement.id) hm
    rw [hids] at hid
    rcases List.mem_map.mp hid with ⟨n, hn, hserial⟩
    have hlength := List.length_filter_le (!Document.isOutput ·) records
    rw [List.mem_range] at hn
    exact ⟨next + n, by omega, hserial.symm⟩

end Numbered

variable [QueryCodec] [LawfulIdSource]

/-- Every command keeps the measurements apart. -/
theorem Numbered.carried (session : Session) (command : Command) (next : Session)
    (hcarried : Carried session command next)
    (h : Numbered session.document session.nextSerial) :
    Numbered next.document next.nextSerial := by
  cases hcarried with
  | added new hfree => exact h.add _ _ _ (id_create _ new)
  | updated update m hfound hcount hfree =>
      exact h.put _ _ _ m _ hfound (revised_kept update hcount m).2.id_eq
  | sampled id input zeroOffset m hfound => exact h.put _ _ _ (.direct m) _ hfound rfl
  | deleted id m measurements htaken =>
      exact h.of_subperm _ _ _ _ ((Document.sublist_of_takeOut? _ _ _ _ htaken).map _).subperm
        (Nat.le_refl _)
  | moved id index m measurements htaken =>
      have hperm := (Document.perm_moved _ _ _ _ index htaken).map Measurement.id
      exact h.of_subperm _ _ _ _ hperm.subperm (Nat.le_refl _)
  | outputAdded name displayUnit =>
      exact h.of_subperm _ _ _ _ (List.Subperm.refl _) (Nat.le_succ _)
  | outputUpdated => exact h.of_subperm _ _ _ _ (List.Subperm.refl _) (Nat.le_refl _)
  | outputDeleted id output outputs htaken =>
      exact h.of_subperm _ _ _ _ (List.Subperm.refl _) (Nat.le_refl _)
  | typesSet types => exact h.of_subperm _ _ _ _ (List.Subperm.refl _) (Nat.le_refl _)
  | gravitySet gravity? latitude gravity hgravity hvalid =>
      exact h.of_subperm _ _ _ _ (List.Subperm.refl _) (Nat.le_refl _)
  | imported query records hrecords => exact Numbered.load session.document _ records

/-- After any frames no two measurements share an identifier. -/
theorem numbered_after [Json.Reader] (gravity : Float) (frames : List String) :
    Numbered ((start gravity).after frames).document ((start gravity).after frames).nextSerial := by
  refine after_induction (fun session => Numbered session.document session.nextSerial)
    (start gravity) ⟨List.nodup_nil, fun m hm => ?_⟩ (handle_keeps Numbered Numbered.carried) frames
  cases hm

end Session

end Metrology
