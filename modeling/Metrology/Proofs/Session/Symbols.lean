import Metrology.Proofs.Session.Numbering

/-!
# Symbols of a session

Formulas and outputs find a measurement by its symbol, and take the first one
that carries it. Adding and renaming a measurement look whether the symbol is
taken; no other edit of one measurement touches its name. An import does not
look: it brings in whatever its records say. So the symbols of a document are
distinct for as long as every imported list of records has distinct symbols of
its own, and no longer.

## Main definitions

* `Document.DistinctSymbols`: No symbol is carried twice.
* `Record.symbol?`: The symbol that a record brings in.

## Theorems

* `Document.isNameTaken_eq_false_iff`: When a name is free.
* `Document.symbols_load`: Loaded symbols are those of the records.
* `Session.DistinctSymbols.carried`: What keeps symbols distinct.
* `Session.distinctSymbols_iff`: When symbols are distinct throughout a session.
-/

namespace Metrology

/-- The symbol that a record brings into a document. -/
def Record.symbol? : Record → Option String
  | .direct name _ _ => (Name.mk name).symbol?
  | .composite name _ => (Name.mk name).symbol?
  | .output .. => none

namespace Document

variable {α : Type}

/-- No two measurements of a document carry one symbol. -/
def DistinctSymbols (document : Document α) : Prop :=
  (document.measurements.filterMap Measurement.symbol?).Nodup

/-- A name is free if no other measurement carries the symbol that it is. -/
theorem isNameTaken_eq_false_iff (document : Document α) (name : String)
    (except : Option RecordId) :
    document.isNameTaken name except = false ↔
      ∀ symbol, (Name.mk name).symbol? = some symbol → ∀ other ∈ document.measurements,
        some other.id ≠ except → other.symbol? ≠ some symbol := by
  rw [isNameTaken]
  cases (Name.mk name).symbol? with
  | none => simp
  | some symbol => simp

/-- A measurement with a free name keeps symbols distinct. -/
theorem DistinctSymbols.add (document : Document α) (h : document.DistinctSymbols)
    (m : Measurement α) (hfree : document.isNameTaken m.name.text none = false) :
    DistinctSymbols { document with measurements := document.measurements ++ [m] } := by
  rw [isNameTaken_eq_false_iff] at hfree
  rw [DistinctSymbols, List.filterMap_append]
  refine List.nodup_append.mpr ⟨h, ?_, ?_⟩
  · cases hsymbol : m.symbol? with
    | none => simp [hsymbol]
    | some symbol => simp [hsymbol]
  · intro symbol hmem symbol' hnew heq
    rcases List.mem_filterMap.mp hmem with ⟨other, hother, hsymbol⟩
    rcases List.mem_filterMap.mp hnew with ⟨m', hm', hsymbol'⟩
    rw [List.mem_singleton.mp hm'] at hsymbol'
    exact hfree symbol' hsymbol' other hother (by simp) (heq ▸ hsymbol)

/-- A measurement that is put in the place of another one keeps symbols distinct if
    its name is the same or a free one. -/
theorem DistinctSymbols.put (document : Document α) (h : document.DistinctSymbols)
    (hids : (document.measurements.map Measurement.id).Nodup) (id : RecordId)
    (m m' : Measurement α) (hfound : document.measurement? id = some m)
    (hname : m'.name = m.name ∨ document.isNameTaken m'.name.text (some id) = false) :
    (document.putMeasurement id m').DistinctSymbols := by
  rcases document.putMeasurement_split id m hfound with ⟨hid, before, after, hms, hbefore, hput⟩
  rw [DistinctSymbols, hms, List.filterMap_append] at h
  rw [DistinctSymbols, hput m', List.filterMap_append]
  rcases hname with hname | hfree
  · have hsymbol : m'.symbol? = m.symbol? := by rw [Measurement.symbol?, hname, Measurement.symbol?]
    rw [List.filterMap_cons, hsymbol, ← List.filterMap_cons]
    exact h
  · have hothers : (before.filterMap Measurement.symbol? ++
        after.filterMap Measurement.symbol?).Nodup :=
      h.sublist (((List.sublist_cons_self m after).filterMap _).append_left _)
    cases hsymbol : m'.symbol? with
    | none =>
        rw [List.filterMap_cons_none hsymbol]
        exact hothers
    | some symbol =>
        rw [List.filterMap_cons_some hsymbol, List.nodup_middle, List.nodup_cons,
          ← List.filterMap_append]
        refine ⟨fun hmem => ?_, by rw [List.filterMap_append]; exact hothers⟩
        -- Whoever else carries the symbol has another identifier.
        rcases List.mem_filterMap.mp hmem with ⟨other, hother, hsame⟩
        rw [hms, List.map_append, List.map_cons, List.nodup_middle, List.nodup_cons,
          ← List.map_append] at hids
        have hdiffer : other.id ≠ id := by
          intro heq
          exact hids.1 (List.mem_map.mpr ⟨other, hother, heq.trans hid.symm⟩)
        refine (isNameTaken_eq_false_iff _ _ _).mp hfree symbol hsymbol other ?_ (by simpa) hsame
        rw [hms]
        rcases List.mem_append.mp hother with hother | hother
        · exact List.mem_append_left _ hother
        · exact List.mem_append_right _ (List.mem_cons_of_mem _ hother)

/-- Fewer measurements in any order keep symbols distinct. -/
theorem DistinctSymbols.of_subperm (document document' : Document α)
    (h : document.DistinctSymbols)
    (hms : document'.measurements.Subperm document.measurements) : document'.DistinctSymbols := by
  rcases hms with ⟨kept, hperm, hsublist⟩
  exact ((hperm.filterMap _).nodup_iff).mp (h.sublist (hsublist.filterMap _))

/-- The symbols of a loaded document are those of the records. -/
theorem symbols_load (document : Document α) (ids : Nat → RecordId) (records : List Record) :
    (document.load ids records).measurements.filterMap Measurement.symbol? =
      records.filterMap Record.symbol? := by
  have hrecord : ∀ id record,
      (measurementOf? (α := α) id record).bind Measurement.symbol? = record.symbol? := by
    intro id record
    cases record with
    | direct name unit typeB =>
        rw [measurementOf?, Option.bind_some, Measurement.symbol?, Record.symbol?]
        exact congrArg Name.symbol? rfl
    | composite name formula =>
        rw [measurementOf?, Option.bind_some, Measurement.symbol?, Record.symbol?]
        exact congrArg Name.symbol? rfl
    | output name displayUnit => rfl
  have hmeasured : (records.filter (!isOutput ·)).filterMap Record.symbol? =
      records.filterMap Record.symbol? := by
    rw [List.filterMap_filter]
    refine List.filterMap_congr fun record _ => ?_
    cases record <;> simp only [isOutput, Record.symbol?, Bool.not_false, Bool.not_true, if_true,
      Bool.false_eq_true, if_false]
  rw [load, ← hmeasured]
  exact filterMap_zipIdx _ _ _ _ fun record _ n => hrecord (ids n) record

end Document

namespace Session

open Document (DistinctSymbols)

/-- Samples do not change the name. -/
theorem name_commit (m : DirectMeasurement Float) (entries : List String)
    (zeroOffset : Option Float) : (m.commit entries zeroOffset).name = m.name := rfl

/-- The name of a measurement after an update is the one it had or a free one. -/
theorem name_revised (update : MeasurementUpdate)
    (hcount : (update.typeB.getD []).length ≤ maxTypeB) (m : Measurement Float)
    (document : Document Float)
    (hfree : ∀ name, update.name = some name →
      document.isNameTaken name (some update.id) = false) :
    (revised update m).name = m.name ∨
      document.isNameTaken (revised update m).name.text (some update.id) = false := by
  have hname := (revised_kept update hcount m).1
  cases hgiven : update.name with
  | none => exact .inl (by rw [hname, hgiven, Option.map_none, Option.getD_none])
  | some name =>
      refine .inr ?_
      rw [hname, hgiven, Option.map_some, Option.getD_some]
      exact hfree name hgiven

section Histories

variable [QueryCodec]

/-- Whether a command that is carried out brings in records with distinct symbols, if
    it is an import. -/
def Unambiguous : Command → Prop
  | .importQuery query =>
    ∀ records, Record.decodeAll query = .ok records → (records.filterMap Record.symbol?).Nodup
  | _ => True

/-- Every command keeps symbols distinct, an import only if its records have distinct
    symbols. -/
theorem distinctSymbols_carried [IdSource] (session : Session) (command : Command) (next : Session)
    (hcarried : Carried session command next) (hcommand : Unambiguous command)
    (hnumbered : Numbered session.document session.nextSerial)
    (h : session.document.DistinctSymbols) : next.document.DistinctSymbols := by
  cases hcarried with
  | added new hfree => exact h.add _ _ hfree
  | updated update m hfound hcount hfree =>
      exact h.put _ hnumbered.distinct update.id m _ hfound
        (name_revised update hcount m _ hfree)
  | sampled id input zeroOffset m hfound =>
      exact h.put _ hnumbered.distinct id (.direct m) _ hfound (.inl (name_commit m _ zeroOffset))
  | deleted id m measurements htaken =>
      exact h.of_subperm _ _ (Document.sublist_of_takeOut? _ _ _ _ htaken).subperm
  | moved id index m measurements htaken =>
      exact h.of_subperm _ _ (Document.perm_moved _ _ _ _ index htaken).subperm
  | outputAdded name displayUnit => exact h
  | outputUpdated => exact h
  | outputDeleted id output outputs htaken => exact h
  | typesSet types => exact h
  | gravitySet gravity? latitude gravity hgravity hvalid => exact h
  | imported query records hrecords =>
      rw [DistinctSymbols, Document.symbols_load]
      exact hcommand records hrecords

/-- No two measurements carry one symbol at any time of a session, if and only if two
    records with one symbol have never been imported together. -/
theorem distinctSymbols_iff [Json.Reader] [IdSource] [LawfulIdSource] (gravity : Float)
    (frames : List String) :
    (∀ handled, handled <+: frames →
        ((start gravity).after handled).document.DistinctSymbols) ↔
      ∀ frame ∈ frames, ∀ query records, Command.read frame = .ok (.importQuery query) →
        Record.decodeAll query = .ok records → (records.filterMap Record.symbol?).Nodup := by
  constructor
  · intro h frame hframe query records hread hrecords
    rcases List.append_of_mem hframe with ⟨before, after, hframes⟩
    -- After the import its symbols are those of the document.
    have hdistinct := h (before ++ [frame]) ⟨after, by rw [hframes]; simp⟩
    rw [after_concat, handle_import _ frame query records hread hrecords] at hdistinct
    rw [← Document.symbols_load]
    exact hdistinct
  · intro h handled
    induction handled using List.reverseRecOn with
    | nil => exact fun _ => List.nodup_nil
    | append_singleton handled frame ih =>
        intro hinitial
        have hbefore := ih ((List.prefix_append handled [frame]).trans hinitial)
        have hframe : frame ∈ frames := hinitial.subset (by simp)
        rw [after_concat]
        rcases handle_document ((start gravity).after handled) frame with
          ⟨hdocument, -⟩ | ⟨command, next, hcommand, hcarried, hdocument, -⟩
        · rw [hdocument]
          exact hbefore
        · rw [hdocument]
          refine distinctSymbols_carried _ command next hcarried ?_
            (numbered_after gravity handled) hbefore
          cases command with
          | importQuery query =>
              exact fun records hrecords => h frame hframe query records hcommand hrecords
          | _ => trivial

end Histories

section Example

open scoped Standard

/-- The frame that imports two measurements under one name. -/
def twins : String := "IMPORT:d=x%2C&d=x%2C"

/-- The two records are read and loaded, and the document has the symbol twice. -/
theorem distinctSymbols_iff_twins :
    Command.read twins = .ok (.importQuery "d=x%2C&d=x%2C") ∧
      Record.decodeAll "d=x%2C&d=x%2C" = .ok [.direct "x" "" [], .direct "x" "" []] ∧
      ¬ ∀ handled, handled <+: [twins] →
        ((start 9.8).after handled).document.DistinctSymbols := by
  have hread : Command.read twins = .ok (.importQuery "d=x%2C&d=x%2C") := rfl
  have hrecords : Record.decodeAll "d=x%2C&d=x%2C" =
      .ok [.direct "x" "" [], .direct "x" "" []] :=
    Outcome.eq_ok_of_toOption _ _ (by decide +kernel)
  refine ⟨hread, hrecords, fun h => ?_⟩
  have hnodup := (distinctSymbols_iff 9.8 [twins]).mp h twins List.mem_cons_self _ _ hread hrecords
  have hsymbols : [Record.direct "x" "" [], .direct "x" "" []].filterMap Record.symbol? =
      ["x", "x"] := by decide +kernel
  rw [hsymbols] at hnodup
  revert hnodup
  decide

end Example

end Session

end Metrology
