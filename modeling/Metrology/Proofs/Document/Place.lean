import Mathlib.Data.List.Nodup
import Metrology.Proofs.Document.Edit

/-!
# Places of records

The records of a document are in lists, and an edit of one record works at the
place where its identifier is met first. What stands before and behind that
place stays as it is, so a property of the whole list is kept if it is kept at
the one place.

## Theorems

* `Document.changeFirst_split`: The place at which a list is changed.
* `Document.takeOut?_split`: The place from which an element is taken.
* `Document.sublist_of_takeOut?`: What is left when an element is taken.
* `Document.putMeasurement_split`: The place at which a measurement is put.
* `Document.putMeasurement_edited`: Of two changes at one place the last one counts.
* `Document.perm_moved`: A moved measurement is still in the list, and no other is.
* `Document.filterMap_zipIdx`: What does not depend on numbers.
* `Document.id_measurementOf?`, `Document.ids_load`: Identifiers of loaded
  measurements.
-/

namespace Metrology

namespace Document

variable {α β : Type}

section Lists

/-- The place at which a list is changed. -/
theorem changeFirst_split (picks : β → Bool) (xs : List β) (x : β)
    (h : xs.find? picks = some x) :
    ∃ before after, xs = before ++ x :: after ∧ (∀ y ∈ before, picks y = false) ∧
      ∀ change, changeFirst picks change xs = before ++ change x :: after := by
  induction xs with
  | nil => cases h
  | cons first rest ih =>
      by_cases hfirst : picks first = true
      · rw [List.find?_cons_of_pos hfirst, Option.some.injEq] at h
        subst h
        refine ⟨[], rest, rfl, fun y hy => by simp at hy, fun change => ?_⟩
        rw [changeFirst, if_pos hfirst, List.nil_append]
      · rw [List.find?_cons_of_neg hfirst] at h
        rcases ih h with ⟨before, after, hxs, hbefore, hchange⟩
        refine ⟨first :: before, after, by rw [hxs, List.cons_append], ?_, fun change => ?_⟩
        · intro y hy
          rcases List.mem_cons.mp hy with hy | hy
          · rw [hy]
            exact Bool.eq_false_iff.mpr hfirst
          · exact hbefore y hy
        · rw [changeFirst, if_neg hfirst, hchange, List.cons_append]

/-- The place from which an element is taken. -/
theorem takeOut?_split (picks : β → Bool) (xs : List β) (x : β) (rest : List β)
    (h : takeOut? picks xs = some (x, rest)) :
    ∃ before after, xs = before ++ x :: after ∧ rest = before ++ after ∧ picks x = true := by
  induction xs generalizing rest with
  | nil => cases h
  | cons first others ih =>
      rw [takeOut?] at h
      split at h
      · next hfirst =>
        rw [Option.some.injEq, Prod.mk.injEq] at h
        exact ⟨[], others, by rw [h.1, List.nil_append], by rw [← h.2, List.nil_append],
          h.1 ▸ hfirst⟩
      · rcases Option.map_eq_some_iff.mp h with ⟨⟨y, kept⟩, htaken, hpair⟩
        rw [Prod.mk.injEq] at hpair
        rw [hpair.1] at htaken
        rcases ih kept htaken with ⟨before, after, hothers, hkept, hx⟩
        exact ⟨first :: before, after, by rw [hothers, List.cons_append],
          by rw [← hpair.2, hkept, List.cons_append], hx⟩

/-- What is left when an element is taken out was there. -/
theorem sublist_of_takeOut? (picks : β → Bool) (xs : List β) (x : β) (rest : List β)
    (h : takeOut? picks xs = some (x, rest)) : rest.Sublist xs := by
  rcases takeOut?_split picks xs x rest h with ⟨before, after, hxs, hrest, -⟩
  rw [hxs, hrest]
  exact (List.sublist_cons_self x after).append_left before

/-- A change at a place where something has been changed already makes up for that
    change, if the place is found again. -/
theorem changeFirst_changeFirst (picks : β → Bool) (change change' : β → β)
    (hkept : ∀ x, picks x = true → picks (change x) = true) (xs : List β) :
    changeFirst picks change' (changeFirst picks change xs) =
      changeFirst picks (change' ∘ change) xs := by
  induction xs with
  | nil => rfl
  | cons x rest ih =>
      rw [changeFirst, changeFirst]
      by_cases hx : picks x = true
      · rw [if_pos hx, if_pos hx, changeFirst, if_pos (hkept x hx), Function.comp_apply]
      · rw [if_neg hx, if_neg hx, changeFirst, if_neg hx, ih]

theorem find?_changeFirst (picks : β → Bool) (change : β → β)
    (hkept : ∀ x, picks x = true → picks (change x) = true) (xs : List β) :
    (changeFirst picks change xs).find? picks = (xs.find? picks).map change := by
  induction xs with
  | nil => rfl
  | cons x rest ih =>
      rw [changeFirst]
      by_cases hx : picks x = true
      · rw [if_pos hx, List.find?_cons_of_pos (hkept x hx), List.find?_cons_of_pos hx,
          Option.map_some]
      · rw [if_neg hx, List.find?_cons_of_neg hx, List.find?_cons_of_neg hx, ih]

/-- An element that is taken out and put back anywhere is still there. -/
theorem perm_moved (picks : β → Bool) (xs : List β) (x : β) (rest : List β) (index : Nat)
    (h : takeOut? picks xs = some (x, rest)) :
    (rest.take index ++ x :: rest.drop index).Perm xs := by
  rcases takeOut?_split picks xs x rest h with ⟨before, after, hxs, hrest, -⟩
  have hfront : (rest.take index ++ x :: rest.drop index).Perm (x :: rest) := by
    simpa using @List.perm_middle _ x (rest.take index) (rest.drop index)
  rw [hxs]
  rw [hrest] at hfront ⊢
  exact hfront.trans List.perm_middle.symm

/-- What is made of the elements of a numbered list does not depend on the numbers if
    it does not for each element. -/
theorem filterMap_zipIdx {γ δ : Type} (make : β → Nat → Option γ) (show? : γ → Option δ)
    (result : β → Option δ) (xs : List β)
    (h : ∀ x ∈ xs, ∀ n, (make x n).bind show? = result x) :
    (xs.zipIdx.filterMap fun (x, n) => make x n).filterMap show? = xs.filterMap result := by
  calc (xs.zipIdx.filterMap fun (x, n) => make x n).filterMap show?
      = xs.zipIdx.filterMap fun entry => (make entry.1 entry.2).bind show? := by
        rw [List.filterMap_filterMap]
    _ = xs.zipIdx.filterMap (result ∘ Prod.fst) :=
        List.filterMap_congr fun entry hentry => h entry.1 (List.fst_mem_of_mem_zipIdx hentry) _
    _ = xs.filterMap result := by rw [← List.filterMap_map, List.zipIdx_map_fst]

end Lists

section Measurements

/-- The place at which a measurement is put. -/
theorem putMeasurement_split (document : Document α) (id : RecordId) (m : Measurement α)
    (h : document.measurement? id = some m) :
    m.id = id ∧ ∃ before after, document.measurements = before ++ m :: after ∧
      (∀ other ∈ before, other.id ≠ id) ∧
      ∀ m', (document.putMeasurement id m').measurements = before ++ m' :: after := by
  rw [measurement?] at h
  have hid : m.id = id := by simpa using List.find?_some h
  rcases changeFirst_split _ _ m h with ⟨before, after, hms, hbefore, hchange⟩
  exact ⟨hid, before, after, hms, fun other hother => of_decide_eq_false (hbefore other hother),
    fun m' => hchange fun _ => m'⟩

/-- The identifier of a measurement that a record stands for. -/
theorem measurementOf?_eq (id : RecordId) (record : Record) (h : isOutput record = false) :
    ∃ m, measurementOf? (α := α) id record = some m ∧ m.id = id := by
  cases record with
  | direct name unit typeB => exact ⟨_, rfl, rfl⟩
  | composite name formula => exact ⟨_, rfl, rfl⟩
  | output name displayUnit => cases h

/-- The identifiers of loaded measurements are the first ones given. -/
theorem ids_load (document : Document α) (ids : Nat → RecordId) (records : List Record) :
    (document.load ids records).measurements.map Measurement.id =
      (List.range (records.filter (!isOutput ·)).length).map ids := by
  rw [load]
  simp only
  rw [List.map_filterMap]
  have hsome : ∀ entry ∈ (records.filter (!isOutput ·)).zipIdx,
      (measurementOf? (α := α) (ids entry.2) entry.1).map Measurement.id = some (ids entry.2) := by
    intro entry hentry
    have hmeasured := (List.mem_filter.mp (List.fst_mem_of_mem_zipIdx hentry)).2
    rcases measurementOf?_eq (α := α) (ids entry.2) entry.1 (by simpa using hmeasured) with
      ⟨m, hm, hid⟩
    rw [hm, Option.map_some, hid]
  rw [List.filterMap_congr hsome, List.filterMap_eq_map', List.range_eq_range',
    ← List.zipIdx_map_snd 0, List.map_map]
  rfl

end Measurements

end Document

end Metrology
