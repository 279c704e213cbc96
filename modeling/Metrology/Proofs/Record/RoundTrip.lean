import Mathlib.Data.List.Basic
import Metrology.Document
import Metrology.Proofs.Outcome
import Metrology.Proofs.Text.Percent
import Metrology.Proofs.Text.Split
import Metrology.Standard

/-!
# Records of a query are read back

The fields of a record are joined by commas and then encoded. The encoding keeps
the fields apart from the other records of a query, whatever characters they
hold; but it comes after the joining, so inside of a record nothing tells a comma
of a field from one between two fields. The reader makes up for that in one
place: all that follows the name of a composite measurement is its formula.

Of the encoding no more is used than that it is read back, that it is made of
characters that do not separate anything, and that letters stand for themselves. The
last is for the keys, which are written as they are.

So a query is read back as the records that the joined fields of its records
stand for. These are the same records, up to empty type-B limits, for as long as
no other field holds a comma, and they never hold one themselves.

## Main definitions

* `LawfulQueryCodec`: What is relied on in an encoding.
* `Record.CommaFree`: No field but a formula holds a comma.
* `Record.readBack?`: The record that the joined fields of a record stand for.
* `Record.written`: A record without what is not written.
* `Record.Full`: Every field of a record is written.

## Theorems

* `Record.decodeAll_encodeAll`: A query is read back record by record.
* `Record.readBack?_of_commaFree`: Without commas a record is read back as what was
  written.
* `Record.commaFree_of_readBack?`: What is read back holds no commas.
* `Record.written_eq_self_iff`: A full record is written as it is.
* `Record.decodeAll_roundTrip`: Which lists of records are read back as they are; those
  that were read from a query are among them.
-/

namespace Metrology

/-- What is relied on in an encoding. -/
class LawfulQueryCodec [QueryCodec] : Prop where
  decode_encode : ∀ text, QueryCodec.decode (QueryCodec.encode text) = .ok text
  /-- An encoding is made of ASCII letters and digits, four marks and the percent sign. -/
  mem_encode : ∀ text, ∀ c ∈ (QueryCodec.encode text).toList,
    c.isAlphanum = true ∨ c ∈ ['-', '_', '.', '~', '%']
  /-- ASCII letters and digits stand for themselves. -/
  encode_of_isAlphanum : ∀ text, (∀ c ∈ text.toList, c.isAlphanum = true) →
    QueryCodec.encode text = text

namespace Standard

scoped instance lawful_percentCodec : LawfulQueryCodec where
  decode_encode := Percent.decode_encode
  mem_encode text c hc := by
    have hplain := Percent.isPlain_of_mem_encode text c hc
    simp only [Percent.isPlain, Bool.and_eq_true, Bool.or_eq_true, decide_eq_true_eq] at hplain
    simp only [List.mem_cons, List.not_mem_nil, or_false]
    tauto
  encode_of_isAlphanum := Percent.encode_of_isAlphanum

end Standard

namespace Record

open Text (join splitAt)

section Queries

/-- The record that the joined fields of a record stand for. -/
def readBack? (record : Record) : Option Record :=
  ofPair? record.key (join ',' record.fields)

/-- A key is one letter. -/
theorem key_eq (record : Record) :
    ∃ c, record.key = String.singleton c ∧ c ∈ ['d', 'c', 'o'] := by
  cases record with
  | direct name unit typeB => exact ⟨'d', rfl, by decide⟩
  | composite name formula => exact ⟨'c', rfl, by decide⟩
  | output name displayUnit => exact ⟨'o', rfl, by decide⟩

variable [QueryCodec]

theorem encode_eq (record : Record) :
    record.encode =
      record.key ++ String.singleton '=' ++ QueryCodec.encode (join ',' record.fields) :=
  rfl

variable [LawfulQueryCodec]

/-- What separates pairs, and what stands for a space, is not in an encoding. -/
theorem not_mem_encode (text : String) (c : Char) (h : c ∈ ['&', '+']) :
    c ∉ (QueryCodec.encode text).toList := by
  intro hmem
  have hplain := LawfulQueryCodec.mem_encode text c hmem
  simp only [List.mem_cons, List.not_mem_nil, or_false] at h
  rcases h with rfl | rfl <;> revert hplain <;> decide

theorem decodeComponent_encode (text : String) :
    decodeComponent (QueryCodec.encode text) = .ok text := by
  have hplus : (QueryCodec.encode text).toList.map (fun c => if c = '+' then ' ' else c) =
      (QueryCodec.encode text).toList := by
    refine (List.map_congr_left fun c hc => ?_).trans (List.map_id _)
    have hne : c ≠ '+' := fun heq => not_mem_encode text '+' (by decide) (heq ▸ hc)
    rw [if_neg hne, id_eq]
  rw [decodeComponent]
  simp only [hplus, String.ofList_toList, LawfulQueryCodec.decode_encode]
  rfl

/-- A key is read as it is, because its letter stands for itself. -/
theorem decodeComponent_key (record : Record) : decodeComponent record.key = .ok record.key := by
  have hself : QueryCodec.encode record.key = record.key := by
    refine LawfulQueryCodec.encode_of_isAlphanum record.key fun c hc => ?_
    rcases key_eq record with ⟨letter, hkey, hletter⟩
    rw [hkey, String.toList_singleton, List.mem_singleton] at hc
    rw [hc]
    simp only [List.mem_cons, List.not_mem_nil, or_false] at hletter
    rcases hletter with rfl | rfl | rfl <;> decide
  have hdecoded := decodeComponent_encode record.key
  rwa [hself] at hdecoded

/-- A pair is read back as the record of its joined fields. -/
theorem decode?_encode (record : Record) : decode? record.encode = .ok record.readBack? := by
  have hkey : '=' ∉ record.key.toList := by
    rcases key_eq record with ⟨c, hc, hmem⟩
    rw [hc, String.toList_singleton, List.mem_singleton]
    rintro rfl
    revert hmem
    decide
  rw [decode?, encode_eq, Text.cutOnce?_append '=' _ _ hkey, Option.getD_some]
  simp only
  rw [decodeComponent_key, decodeComponent_encode]
  rfl

/-- A pair begins with the letter of its key and does not hold the character that
    separates pairs. -/
theorem toList_encode (record : Record) :
    (∃ c cs, record.encode.toList = c :: cs ∧ c ≠ '?') ∧ '&' ∉ record.encode.toList := by
  have hencoded := not_mem_encode (join ',' record.fields) '&' (by decide)
  rcases key_eq record with ⟨c, hc, hmem⟩
  have hletter : c ≠ '?' ∧ c ≠ '&' := by
    simp only [List.mem_cons, List.not_mem_nil, or_false] at hmem
    rcases hmem with rfl | rfl | rfl <;> decide
  rw [encode_eq, hc]
  simp only [String.toList_append, String.toList_singleton, List.append_assoc]
  refine ⟨⟨c, _, rfl, hletter.1⟩, ?_⟩
  simp only [List.mem_append, List.mem_singleton, not_or]
  exact ⟨hletter.2.symm, by decide, hencoded⟩

/-- The query is cut into the pairs again. -/
theorem splitAt_encodeAll (records : List Record) :
    (splitAt '&' (dropMark (encodeAll records))).filter (fun pair => !pair.isEmpty) =
      records.map encode := by
  cases records with
  | nil => rfl
  | cons record others =>
      have hmark : dropMark (encodeAll (record :: others)) =
          join '&' ((record :: others).map encode) := by
        rcases (toList_encode record).1 with ⟨c, cs, hcs, hc⟩
        have hfirst : ∃ rest, (join '&' ((record :: others).map encode)).toList = c :: rest := by
          cases others with
          | nil => exact ⟨cs, by rw [List.map_singleton, Text.join_singleton, hcs]⟩
          | cons next rest =>
              rw [List.map_cons, Text.toList_join_cons _ _ _ (by simp), hcs, List.cons_append]
              exact ⟨_, rfl⟩
        rcases hfirst with ⟨rest, hrest⟩
        change dropMark (join '&' ((record :: others).map encode)) = _
        rw [dropMark, hrest]
        simp [hc]
      rw [hmark, Text.splitAt_join '&' _ (by simp)]
      · refine List.filter_eq_self.mpr fun pair hpair => ?_
        rcases List.mem_map.mp hpair with ⟨record, -, rfl⟩
        rcases (toList_encode record).1 with ⟨c, cs, hcs, -⟩
        have hnonempty : record.encode ≠ "" := by
          intro heq
          rw [heq] at hcs
          cases hcs
        simpa using hnonempty
      · intro pair hpair
        rcases List.mem_map.mp hpair with ⟨record, -, rfl⟩
        exact (toList_encode record).2

/-- A query is read back record by record. -/
theorem decodeAll_encodeAll (records : List Record) :
    decodeAll (encodeAll records) = .ok (records.filterMap readBack?) := by
  have hpairs : (records.map encode).mapM decode? = .ok (records.map readBack?) := by
    induction records with
    | nil => rfl
    | cons record others ih =>
        rw [List.map_cons, List.mapM_cons, decode?_encode, ih]
        rfl
  rw [decodeAll, splitAt_encodeAll, hpairs]
  change Except.ok ((records.map readBack?).filterMap id) = _
  rw [List.filterMap_map, Function.id_comp]

end Queries

section Commas

/-- No field but a formula holds a comma. -/
def CommaFree : Record → Prop
  | direct name unit typeB =>
    ',' ∉ name.toList ∧ ',' ∉ unit.toList ∧ ∀ value ∈ typeB, ',' ∉ value.toList
  | composite name _ => ',' ∉ name.toList
  | output name displayUnit => ',' ∉ name.toList ∧ ∀ unit ∈ displayUnit, ',' ∉ unit.toList

/-- A record without the type-B limits and the display unit that are not written
    because they are empty. -/
def written : Record → Record
  | direct name unit typeB => direct name unit (typeBFields typeB)
  | composite name formula => composite name formula
  | output name displayUnit => output name (displayUnit.filter fun unit => !unit.isEmpty)

/-- No more limits are written than there are slots. -/
theorem length_typeBFields (values : List String) : (typeBFields values).length ≤ maxTypeB := by
  rw [typeBFields, List.length_take]
  exact Nat.min_le_left _ _

@[simp]
theorem typeBFields_typeBFields (values : List String) :
    typeBFields (typeBFields values) = typeBFields values := by
  have hnonempty : (typeBFields values).filter (fun value => !value.isEmpty) =
      typeBFields values := by
    refine List.filter_eq_self.mpr fun value hvalue => ?_
    exact (List.mem_filter.mp (List.mem_of_mem_take hvalue)).2
  rw [typeBFields, hnonempty, List.take_of_length_le (length_typeBFields values)]

/-- Without commas in its fields a record is read back as what was written. -/
theorem readBack?_of_commaFree (record : Record) (h : record.CommaFree) :
    record.readBack? = some record.written := by
  rw [readBack?]
  cases record with
  | direct name unit typeB =>
      rcases h with ⟨hname, hunit, htypeB⟩
      have hfields : splitAt ',' (join ',' (fields (direct name unit typeB))) =
          name :: unit :: typeBFields typeB := by
        refine Text.splitAt_join ',' _ (by simp [fields]) fun field hfield => ?_
        rcases List.mem_cons.mp hfield with rfl | hfield
        · exact hname
        · rcases List.mem_cons.mp hfield with rfl | hfield
          · exact hunit
          · exact htypeB field (List.mem_filter.mp (List.mem_of_mem_take hfield)).1
      rw [ofPair?, hfields]
      simp [key, written]
  | composite name formula =>
      have hfields : splitAt ',' (join ',' (fields (composite name formula))) =
          name :: splitAt ',' formula := by
        rw [fields, Text.splitAt_join_cons ',' _ _ (by simp) h, Text.join_singleton]
      -- The pieces behind the name are joined again.
      have hformula : (",".intercalate (splitAt ',' formula)) = formula :=
        Text.join_splitAt ',' formula
      rw [ofPair?, hfields]
      simp [key, written, hformula]
  | output name displayUnit =>
      rcases h with ⟨hname, hunit⟩
      have hfields : splitAt ',' (join ',' (fields (output name displayUnit))) =
          "u" :: name :: (displayUnit.filter fun unit => !unit.isEmpty).toList := by
        refine Text.splitAt_join ',' _ (by simp [fields]) fun field hfield => ?_
        rcases List.mem_cons.mp hfield with rfl | hfield
        · decide
        · rcases List.mem_cons.mp hfield with rfl | hfield
          · exact hname
          · exact hunit field (Option.mem_filter_iff.mp (Option.mem_toList.mp hfield)).1
      rw [ofPair?, hfields]
      cases displayUnit with
      | none => simp [key, written]
      | some unit => by_cases hempty : unit = "" <;> simp [key, written, hempty, Option.filter]

/-- What is read holds no commas, but in formulas. -/
theorem commaFree_of_ofPair? (key value : String) (record : Record)
    (h : ofPair? key value = some record) : record.CommaFree := by
  rw [ofPair?] at h
  have hpieces := Text.not_mem_of_mem_splitAt ',' value
  generalize splitAt ',' value = pieces at h hpieces
  have hfield : ∀ i, ',' ∉ (pieces.getD i "").toList := by
    intro i
    rw [List.getD_eq_getElem?_getD]
    cases hi : pieces[i]? with
    | none => simp
    | some piece => exact hpieces piece (List.mem_of_getElem? hi)
  simp only at h
  split at h
  · rw [← Option.some.inj h]
    refine ⟨hfield 0, hfield 1, fun value hvalue => hpieces value ?_⟩
    exact List.mem_of_mem_drop (List.mem_filter.mp (List.mem_of_mem_take hvalue)).1
  · split at h
    · rw [← Option.some.inj h]
      exact hfield 0
    · split at h
      · rw [← Option.some.inj h]
        refine ⟨hfield 1, fun unit hunit => hpieces unit ?_⟩
        exact List.mem_of_getElem? (Option.mem_filter_iff.mp hunit).1
      · cases h

/-- Records without commas are read back as what was written of them. -/
theorem filterMap_readBack? (records : List Record) (h : ∀ record ∈ records, record.CommaFree) :
    records.filterMap readBack? = records.map written :=
  (List.filterMap_congr fun record hrecord => record.readBack?_of_commaFree (h record hrecord)).trans
    (congrFun List.filterMap_eq_map' records)

theorem commaFree_of_readBack? (record other : Record) (h : record.readBack? = some other) :
    other.CommaFree :=
  commaFree_of_ofPair? _ _ other h

/-- A record without blank type-B limits. -/
def tidy : Record → Record
  | direct name unit typeB => direct name unit (typeB.filter fun value => !Text.isBlankText value)
  | record => record

/-- Blanks are no commas. -/
@[simp]
theorem commaFree_tidy (record : Record) : record.tidy.CommaFree ↔ record.CommaFree := by
  cases record with
  | direct name unit typeB =>
      refine and_congr_right fun _ => and_congr_right fun _ => ⟨fun h value hvalue => ?_,
        fun h value hvalue => h value (List.mem_filter.mp hvalue).1⟩
      by_cases hblank : Text.isBlankText value = true
      · intro hcomma
        rw [Text.isBlankText] at hblank
        have := List.all_eq_true.mp hblank ',' hcomma
        revert this
        decide
      · exact h value (List.mem_filter.mpr ⟨hvalue, by simpa using hblank⟩)
  | composite name formula => exact Iff.rfl
  | output name displayUnit => exact Iff.rfl

end Commas

section RoundTrip

/-- Every field of the record is written: there are no more type-B limits than
    slots, and neither a limit nor a display unit is empty. -/
def Full : Record → Prop
  | direct _ _ typeB => typeB.length ≤ maxTypeB ∧ ∀ value ∈ typeB, value ≠ ""
  | composite .. => True
  | output _ displayUnit => displayUnit ≠ some ""

theorem full_typeBFields (name unit : String) (values : List String) :
    (direct name unit (typeBFields values)).Full := by
  refine ⟨length_typeBFields values, fun value hvalue => ?_⟩
  simpa using (List.mem_filter.mp (List.mem_of_mem_take hvalue)).2

/-- Empty limits behind full ones are not written. -/
theorem typeBFields_append_empty (typeB : List String) (count : Nat)
    (h : typeB.length ≤ maxTypeB ∧ ∀ value ∈ typeB, value ≠ "") :
    typeBFields (typeB ++ List.replicate count "") = typeB := by
  have hall : typeB.filter (fun value => !value.isEmpty) = typeB :=
    List.filter_eq_self.mpr fun value hvalue => by simpa using h.2 value hvalue
  have hnone : (List.replicate count "").filter (fun value => !value.isEmpty) = [] :=
    List.filter_eq_nil_iff.mpr fun value hvalue => by simp [List.eq_of_mem_replicate hvalue]
  rw [typeBFields, List.filter_append, hall, hnone, List.append_nil, List.take_of_length_le h.1]

theorem full_filter (name : String) (displayUnit : Option String) :
    (output name (displayUnit.filter fun unit => !unit.isEmpty)).Full := by
  intro hempty
  have hnonempty := (Option.mem_filter_iff.mp hempty).2
  revert hnonempty
  decide

/-- A full record is written as it is, and no other record is. -/
theorem written_eq_self_iff (record : Record) : record.written = record ↔ record.Full := by
  cases record with
  | direct name unit typeB =>
      constructor
      · intro h
        rw [← h]
        exact full_typeBFields name unit typeB
      · intro hfull
        have hkept := typeBFields_append_empty typeB 0 hfull
        rw [List.replicate_zero, List.append_nil] at hkept
        rw [written, hkept]
  | composite name formula => exact iff_of_true rfl trivial
  | output name displayUnit =>
      constructor
      · intro h
        rw [← h]
        exact full_filter name displayUnit
      · intro hnonempty
        cases displayUnit with
        | none => rfl
        | some unit =>
            have hunit : (!unit.isEmpty) = true := by
              simpa using fun hempty : unit = "" => hnonempty (congrArg some hempty)
            rw [written, Option.filter_some, if_pos hunit]

/-- Every field of what is read is one that is written. -/
theorem full_of_ofPair? (key value : String) (record : Record)
    (h : ofPair? key value = some record) : record.Full := by
  rw [ofPair?] at h
  simp only at h
  split at h
  · rw [← Option.some.inj h]
    exact full_typeBFields _ _ _
  · split at h
    · rw [← Option.some.inj h]
      exact trivial
    · split at h
      · rw [← Option.some.inj h]
        exact full_filter _ _
      · cases h

variable [QueryCodec]

/-- The record of a pair, if there is one, is that of a key and a value. -/
theorem ofPair?_of_decode? (pair : String) (record : Record)
    (h : decode? pair = .ok (some record)) : ∃ key value, ofPair? key value = some record := by
  rw [decode?] at h
  simp only [Outcome.bind_eq_ok, Outcome.pure_eq_ok] at h
  rcases h with ⟨key, -, value, -, hrecord⟩
  exact ⟨key, value, hrecord⟩

/-- Every record of a query is that of a key and a value. -/
theorem ofPair?_of_decodeAll (query : String) (records : List Record)
    (h : decodeAll query = .ok records) :
    ∀ record ∈ records, ∃ key value, ofPair? key value = some record := by
  have hpairs : ∀ pairs : List String, ∀ read, pairs.mapM decode? = .ok read →
      ∀ record, some record ∈ read → ∃ key value, ofPair? key value = some record := by
    intro pairs
    induction pairs with
    | nil =>
        intro read hread record hrecord
        rw [List.mapM_nil, Outcome.pure_eq_ok] at hread
        rw [← hread] at hrecord
        cases hrecord
    | cons pair rest ih =>
        intro read hread record hrecord
        simp only [List.mapM_cons, Outcome.bind_eq_ok, Outcome.pure_eq_ok] at hread
        rcases hread with ⟨first, hfirst, others, hothers, rfl⟩
        rcases List.mem_cons.mp hrecord with rfl | hmem
        · exact ofPair?_of_decode? pair record hfirst
        · exact ih others hothers record hmem
  rw [decodeAll] at h
  simp only [Outcome.bind_eq_ok, Outcome.pure_eq_ok] at h
  rcases h with ⟨read, hread, rfl⟩
  intro record hrecord
  rcases List.mem_filterMap.mp hrecord with ⟨found, hfound, hsome⟩
  rw [id_eq] at hsome
  exact hpairs _ read hread record (hsome ▸ hfound)

variable [LawfulQueryCodec]

/-- Records without commas of which every field is written are read back as they
    are. -/
theorem decodeAll_encodeAll_of_full (records : List Record)
    (h : ∀ record ∈ records, record.CommaFree ∧ record.Full) :
    decodeAll (encodeAll records) = .ok records := by
  have hwritten : records.map written = records :=
    (List.map_congr_left fun record hrecord =>
      (written_eq_self_iff record).mpr (h record hrecord).2).trans (List.map_id records)
  rw [decodeAll_encodeAll, filterMap_readBack? records fun record hrecord => (h record hrecord).1,
    hwritten]

/-- A list of records is read back as it is if and only if no field but a formula
    holds a comma and every field is written. Whatever was read from a query is such
    a list. -/
theorem decodeAll_roundTrip :
    (∀ records : List Record, decodeAll (encodeAll records) = .ok records ↔
      ∀ record ∈ records, record.CommaFree ∧ record.Full) ∧
      ∀ (query : String) (records : List Record), decodeAll query = .ok records →
        decodeAll (encodeAll records) = .ok records := by
  have hread : ∀ (query : String) (records : List Record), decodeAll query = .ok records →
      ∀ record ∈ records, record.CommaFree ∧ record.Full := by
    intro query records h record hrecord
    rcases ofPair?_of_decodeAll query records h record hrecord with ⟨key, value, hpair⟩
    exact ⟨commaFree_of_ofPair? key value record hpair, full_of_ofPair? key value record hpair⟩
  refine ⟨fun records => ⟨hread _ records, decodeAll_encodeAll_of_full records⟩, ?_⟩
  exact fun query records h => decodeAll_encodeAll_of_full records (hread query records h)

end RoundTrip

section Example

open scoped Standard

/-- A query with a mark, plus signs, an empty pair and a pair of another kind. -/
theorem decodeAll_roundTrip_speed :
    let records := [direct "l" "cm" ["0.1 cm"], composite "v" "max(l, t)",
      output "v" (some "m/s")]
    (∀ record ∈ records, record.CommaFree ∧ record.Full) ∧
      decodeAll "?d=l%2Ccm%2C0.1+cm&&z=1&c=v%2Cmax%28l,+t%29&o=u%2Cv%2Cm%2Fs" = .ok records ∧
      decodeAll (encodeAll records) = .ok records := by
  intro records
  have hquery : decodeAll "?d=l%2Ccm%2C0.1+cm&&z=1&c=v%2Cmax%28l,+t%29&o=u%2Cv%2Cm%2Fs" =
      .ok records :=
    Outcome.eq_ok_of_toOption _ _ (by decide +kernel)
  have hreturned := decodeAll_roundTrip.2 _ records hquery
  exact ⟨(decodeAll_roundTrip.1 records).mp hreturned, hquery, hreturned⟩

end Example

end Record

end Metrology
