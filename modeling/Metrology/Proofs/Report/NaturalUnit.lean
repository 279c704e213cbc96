import Metrology.Proofs.Propagation.Units
import Metrology.Proofs.Unit.ReadBack
import Metrology.Report.Basic

/-!
# Reports in the unit of the mean

When an output has no display unit, its report is expressed in the unit of the
mean. The unit goes through its text on the way: it is written, and the text is
read again. So whether there is a report depends on what the reader makes of the
text. It need not be the unit itself, and it need not even have its dimension:
a mean in `m s^-1 kg^-1` is written in `m / s kg`, which is read as `m s^-1 kg`,
and the report fails with a mismatch of a unit with itself.

`natural_unit_iff` says for which units this happens. The uncertainty plays no
part in it, since it has the unit of the mean, and counting digits never fails
for a unit.

## Main definitions

* `PropagationError.IsUnitFailure`: The failures that units cause.

## Theorems

* `Propagator.minDigits_error`: Counting digits does not fail for a unit.
* `Output.evaluate_eq`: What a report comes from.
* `Output.evaluate_natural`: What a report without a display unit comes from.
* `Output.reportIn_eq_error`: Why a report fails.
* `Output.reportIn_unitFailure_iff`: When such a report fails for a unit.
* `Output.derived_of_own`: The constants of a document have derived units.
* `Output.natural_unit_iff`: When a unit and a report come back from its text.
-/

namespace Metrology

/-- The failures that units cause: no unit, or one of another dimension. -/
def PropagationError.IsUnitFailure {α : Type} : PropagationError α → Prop
  | unitMismatch _ => True
  | invalidUnit _ _ => True
  | _ => False

section Digits

variable {α : Type}

/-- Dependencies are resolved without a look at units. -/
theorem Graph.dependencies_error (g : Graph α) (m : CompositeMeasurement)
    (e : PropagationError α) (h : g.dependencies m = .error e) : ¬ e.IsUnitFailure := by
  rw [dependencies] at h
  cases htree : m.tree (α := α) with
  | error cause =>
      rw [htree] at h
      rw [← Except.error.inj h]
      rw [CompositeMeasurement.tree] at htree
      split at htree
      · rw [← Except.error.inj htree]
        exact id
      · rw [← Except.error.inj htree]
        exact id
      · simp at htree
  | ok tree =>
      rw [htree] at h
      rcases Outcome.foldlM_eq_error _ _ _ _ h with ⟨found, symbol, -, hstep⟩
      rw [resolve] at hstep
      split at hstep
      · simp at hstep
      · split at hstep
        · rw [← Except.error.inj hstep]
          exact id
        · split at hstep
          · simp at hstep
          · rw [← Except.error.inj hstep]
            exact id

/-- That counting digits does not fail for a unit, as an account. -/
def Evaluation.noUnitFailure (g : Graph α) : DigitsAccount g where
  reached _ _ := True
  value _ := True
  failure _ e := ¬ e.IsUnitFailure
  limit := 0
  direct_value _ _ _ := trivial
  closes _ _ _ _ := id
  unresolved _ m e _ h := g.dependencies_error m e h
  enters _ _ _ _ _ _ _ _ := trivial
  fails _ _ _ _ _ _ _ _ h := h
  counted _ _ _ _ _ _ := trivial

/-- Counting digits does not fail for a unit. -/
theorem Propagator.minDigits_error [Scalar α] (constants : Bindings α) (m : Measurement α)
    (all : List (Measurement α)) (e : PropagationError α)
    (h : Propagator.minDigits constants m all = .error e) : ¬ e.IsUnitFailure := by
  let g : Graph α := ⟨all, constants⟩
  have hmeets := (Evaluation.noUnitFailure g).meets (σ := NoMemory α) (fun _ _ => True)
    (g.depth m) [] m trivial (Nat.zero_le _)
  exact (hmeets.outcome _ _ _ (Evaluation.Meets.follows_fresh _)).2 e h

end Digits

namespace Output

variable {σ α : Type} [Scalar α]

/-- Two units with dimensions are comparable when the dimensions are equal. -/
theorem numberIn_eq_ok (q : Quantity α) (target : CompoundUnit α) (d : Dimension)
    (hunit : q.unit.dimension = .ok d) :
    (∃ x, q.numberIn target = .ok x) ↔ target.dimension = .ok d := by
  rw [Quantity.numberIn, Quantity.checkSameDimension, hunit]
  cases htarget : target.dimension with
  | error e => simp [bind, Except.bind]
  | ok e =>
      by_cases hsame : d = e
      · simp [bind, Except.bind, hsame, pure, Except.pure]
      · simp [bind, Except.bind, hsame, Ne.symm hsame]

/-- Why a report fails: its unit cannot be read, the mean or the uncertainty is not
    measured in it, or counting the digits fails. -/
theorem reportIn_eq_error (output : Output) (text : String) (mean uncertainty : Quantity α)
    (minDigits : Except (PropagationError α) Nat) (e : PropagationError α)
    (h : output.reportIn text mean uncertainty minDigits = .error e) :
    (∃ cause, CompoundUnit.read (α := α) text = .error cause) ∨
      ∃ unit, CompoundUnit.read text = .ok unit ∧
        ((∃ cause, mean.numberIn unit = .error cause) ∨
          (∃ cause, uncertainty.numberIn unit = .error cause) ∨ minDigits = .error e) := by
  rw [reportIn, Outcome.bind_eq_error, Outcome.mapError_eq_error] at h
  rcases h with ⟨cause, hcause, -⟩ | ⟨unit, hread, h⟩
  · exact Or.inl ⟨cause, hcause⟩
  · rw [Outcome.mapError_eq_ok] at hread
    rw [Outcome.bind_eq_error, Outcome.mapError_eq_error] at h
    refine Or.inr ⟨unit, hread, ?_⟩
    rcases h with ⟨cause, hcause, -⟩ | ⟨meanValue, -, h⟩
    · exact Or.inl ⟨cause, hcause⟩
    · refine Or.inr ?_
      by_cases hzero : uncertainty.isZero = true
      · simp only [if_pos hzero, pure_bind, Outcome.bind_eq_error] at h
        rcases h with hcount | ⟨digits, -, hmake⟩
        · exact Or.inr hcount
        · cases hmake
      · simp only [if_neg hzero, Outcome.bind_eq_error] at h
        rcases h with hunmeasured | ⟨value, -, h⟩
        · cases huncertainty : uncertainty.numberIn unit with
          | error cause => exact Or.inl ⟨cause, rfl⟩
          | ok value =>
              rw [huncertainty] at hunmeasured
              cases hunmeasured
        · rcases h with hcount | ⟨digits, -, hmake⟩
          · exact Or.inr hcount
          · cases hmake

/-- A report fails with a text that is no unit. -/
theorem reportIn_unreadable (output : Output) (text : String) (mean uncertainty : Quantity α)
    (minDigits : Except (PropagationError α) Nat) (cause : UnitError α)
    (h : CompoundUnit.read text = .error cause) :
    output.reportIn text mean uncertainty minDigits = .error (.invalidUnit text cause) := by
  rw [reportIn, h, Outcome.mapError_error]
  rfl

/-- A report fails in a unit in which the mean is not measured. -/
theorem reportIn_unmeasured (output : Output) (text : String) (mean uncertainty : Quantity α)
    (minDigits : Except (PropagationError α) Nat) (unit : CompoundUnit α) (cause : UnitError α)
    (hread : CompoundUnit.read text = .ok unit) (h : mean.numberIn unit = .error cause) :
    output.reportIn text mean uncertainty minDigits = .error (.unitMismatch cause) := by
  rw [reportIn, hread, Outcome.mapError_ok, Outcome.bind_eq_error]
  refine Or.inr ⟨unit, rfl, ?_⟩
  rw [h, Outcome.mapError_error]
  rfl

/-- A report fails for a unit that cannot be read or in which the mean is not
    measured. -/
theorem reportIn_unitFailure (output : Output) (text : String) (mean uncertainty : Quantity α)
    (minDigits : Except (PropagationError α) Nat)
    (h : ∀ unit, CompoundUnit.read text = .ok unit → ∃ cause, mean.numberIn unit = .error cause) :
    ∃ e, output.reportIn text mean uncertainty minDigits = .error e ∧ e.IsUnitFailure := by
  cases hread : CompoundUnit.read (α := α) text with
  | error cause =>
      exact ⟨_, output.reportIn_unreadable text mean uncertainty _ cause hread, trivial⟩
  | ok unit =>
      rcases h unit hread with ⟨cause, hcause⟩
      exact ⟨_, output.reportIn_unmeasured text mean uncertainty _ unit cause hread hcause,
        trivial⟩

/-- A report in the unit of the mean fails for the unit exactly when the text of
    the unit is read as nothing of its dimension. -/
theorem reportIn_unitFailure_iff (output : Output) (mean uncertainty : Quantity α)
    (minDigits : Except (PropagationError α) Nat) (hmean : mean.unit.WellFormed)
    (hsame : uncertainty.unit = mean.unit) (hdigits : ∀ e, minDigits = .error e → ¬ e.IsUnitFailure) :
    (∃ e, output.reportIn mean.unit.text mean uncertainty minDigits = .error e ∧ e.IsUnitFailure) ↔
      ¬ ∃ found, CompoundUnit.read mean.unit.text = .ok found ∧
        found.dimension = mean.unit.dimension := by
  rcases hmean.measurable with ⟨d, hd⟩
  constructor
  · rintro ⟨e, herror, hfailure⟩ ⟨found, hfound, hdimension⟩
    -- In a unit of the same dimension both values are measured, and counting the
    -- digits does not fail for a unit.
    have hmeanIn := (numberIn_eq_ok mean found d hd).mpr (hdimension.trans hd)
    have huncertaintyIn := (numberIn_eq_ok uncertainty found d (hsame ▸ hd)).mpr
      (hdimension.trans hd)
    rcases output.reportIn_eq_error _ mean uncertainty minDigits e herror with
      ⟨cause, hread⟩ | ⟨unit, hread, hcause⟩
    · rw [hfound] at hread
      cases hread
    · rw [hfound, Except.ok.injEq] at hread
      rw [← hread] at hcause
      rcases hcause with ⟨cause, hcause⟩ | ⟨cause, hcause⟩ | hcount
      · rcases hmeanIn with ⟨x, hx⟩
        rw [hcause] at hx
        cases hx
      · rcases huncertaintyIn with ⟨x, hx⟩
        rw [hcause] at hx
        cases hx
      · exact hdigits e hcount hfailure
  · intro hnot
    refine output.reportIn_unitFailure _ mean uncertainty minDigits (fun unit hread => ?_)
    cases hvalue : mean.numberIn unit with
    | error cause => exact ⟨cause, rfl⟩
    | ok x =>
        have hdimension := (numberIn_eq_ok mean unit d hd).mp ⟨x, hvalue⟩
        exact absurd ⟨unit, hread, hdimension.trans hd.symm⟩ hnot

/-- What a report comes from once there are a mean and an uncertainty. -/
theorem evaluate_eq [DerivativeStore σ α] (output : Output) (document : Document α)
    (m : Measurement α) (p next last : Propagator σ α) (mean uncertainty : Quantity α)
    (hm : document.findBySymbol? output.name = some m)
    (hmean : (Propagator.mean m document.measurements).run p = (.ok (some mean), next))
    (huncertainty : (Propagator.uncertainty m document.measurements
      document.uncertaintyTypes).run next = (.ok (some uncertainty), last)) :
    ((output.evaluate document).run p).1 =
      (output.reportIn (output.displayUnit.getD mean.unit.text) mean uncertainty
        (Propagator.minDigits last.constants m document.measurements)).map some := by
  rw [Output.evaluate, hm]
  simp only
  rw [Outcome.run_bind, hmean]
  simp only
  rw [Outcome.run_bind, huncertainty]
  simp only
  rw [Outcome.run_bind, Outcome.run_get]
  simp only
  rw [Outcome.run_bind, Outcome.run_mk_pure]
  cases output.reportIn (output.displayUnit.getD mean.unit.text) mean uncertainty
      (Propagator.minDigits last.constants m document.measurements) <;> rfl

/-- What a report without a display unit comes from. -/
theorem evaluate_natural [DerivativeStore σ α] (output : Output) (document : Document α)
    (m : Measurement α) (p next last : Propagator σ α) (mean uncertainty : Quantity α)
    (hdisplay : output.displayUnit = none) (hm : document.findBySymbol? output.name = some m)
    (hmean : (Propagator.mean m document.measurements).run p = (.ok (some mean), next))
    (huncertainty : (Propagator.uncertainty m document.measurements
      document.uncertaintyTypes).run next = (.ok (some uncertainty), last)) :
    ((output.evaluate document).run p).1 =
      (output.reportIn mean.unit.text mean uncertainty
        (Propagator.minDigits last.constants m document.measurements)).map some := by
  rw [evaluate_eq output document m p next last mean uncertainty hm hmean huncertainty, hdisplay,
    Option.getD_none]

omit [Scalar α] in
/-- What a propagator is given as constants it has, and nothing needs to be unfolded to see
    that. -/
theorem constants_mk (constants : Bindings α) (store : σ) :
    (⟨constants, store⟩ : Propagator σ α).constants = constants := rfl

/-- A propagator that has the constants of a document has constants in derived units. -/
theorem derived_of_own (p : Propagator σ α) (document : Document α)
    (h : p.constants = document.constants ∨ p.constants.Derived) : p.constants.Derived := by
  rcases h with hown | hderived
  · rw [hown]
    exact document.settings.constants_derived
  · exact hderived

/-- Exactly the units of `ReadsBack` come back from their texts as themselves, and
    they come back with their dimensions and scales. An output without a display
    unit fails for its unit exactly when the text of the unit of the mean is read
    as nothing of its dimension, and never when that unit reads back. The constants are
    the document's own or any others with derived units. -/
theorem natural_unit_iff [UnitScalar α] [DerivativeStore σ α] :
    (∀ unit : CompoundUnit α, unit.Derived →
      ((∃ found, CompoundUnit.read unit.text = .ok found ∧ found.SameFactors unit) ↔
        unit.ReadsBack) ∧
      ∀ found, CompoundUnit.read unit.text = .ok found → found.SameFactors unit →
        found.factors.Perm unit.factors ∧ found.dimension = unit.dimension ∧
          ((∀ a b c : α, a * b * c = a * c * b) → found.scale = unit.scale)) ∧
    ∀ (output : Output) (document : Document α) (m : Measurement α)
      (p next last : Propagator σ α) (mean uncertainty : Quantity α),
      p.constants = document.constants ∨ p.constants.Derived → output.displayUnit = none →
      document.findBySymbol? output.name = some m →
      (Propagator.mean m document.measurements).run p = (.ok (some mean), next) →
      (Propagator.uncertainty m document.measurements document.uncertaintyTypes).run next =
        (.ok (some uncertainty), last) →
        ((∃ e, ((output.evaluate document).run p).1 = .error e ∧ e.IsUnitFailure) ↔
          ¬ ∃ found, CompoundUnit.read mean.unit.text = .ok found ∧
            found.dimension = mean.unit.dimension) ∧
        (mean.unit.ReadsBack →
          ¬ ∃ e, ((output.evaluate document).run p).1 = .error e ∧ e.IsUnitFailure) := by
  have hback : ∀ unit : CompoundUnit α, unit.Derived →
      ∀ found, CompoundUnit.read unit.text = .ok found → found.SameFactors unit →
        found.factors.Perm unit.factors ∧ found.dimension = unit.dimension := by
    intro unit hunit found hread hsame
    have hperm := CompoundUnit.perm_of_sameFactors unit found hunit.wellFormed.tidy hread hsame
    exact ⟨hperm, CompoundUnit.dimension_of_perm unit found hunit.wellFormed.measurable
      (CompoundUnit.read_wellFormed _ found hread).measurable hperm⟩
  refine ⟨fun unit hunit => ⟨CompoundUnit.reads_back_iff unit hunit.wellFormed.tidy, ?_⟩, ?_⟩
  · intro found hread hsame
    rcases hback unit hunit found hread hsame with ⟨hperm, hdimension⟩
    exact ⟨hperm, hdimension, fun hright => CompoundUnit.scale_of_perm unit found hright hperm⟩
  · intro output document m p next last mean uncertainty hconstants hdisplay hm hmean huncertainty
    rcases Propagator.uncertainty_unit m document.measurements document.uncertaintyTypes p next last
      mean uncertainty (derived_of_own p document hconstants) hmean huncertainty with
      ⟨hderived, hsame⟩
    have hiff := reportIn_unitFailure_iff output mean uncertainty
      (Propagator.minDigits last.constants m document.measurements) hderived.wellFormed hsame
      (Propagator.minDigits_error last.constants m document.measurements)
    -- Both values are in one derived unit, so the report depends on its text only.
    rw [evaluate_natural output document m p next last mean uncertainty hdisplay hm hmean
      huncertainty]
    have hmap : ∀ e, (output.reportIn mean.unit.text mean uncertainty
          (Propagator.minDigits last.constants m document.measurements)).map some = .error e ↔
        output.reportIn mean.unit.text mean uncertainty
          (Propagator.minDigits last.constants m document.measurements) = .error e := by
      intro e
      cases output.reportIn mean.unit.text mean uncertainty
        (Propagator.minDigits last.constants m document.measurements) <;> simp [Except.map]
    simp only [hmap]
    refine ⟨hiff, fun hreads => ?_⟩
    rw [hiff, not_not]
    rcases (CompoundUnit.reads_back_iff mean.unit hderived.wellFormed.tidy).mpr hreads with
      ⟨found, hread, hfactors⟩
    exact ⟨found, hread, (hback mean.unit hderived found hread hfactors).2⟩

section Divisors

/-- A metre per second, with its divisor behind the slash. -/
def meterPerSecond : CompoundUnit Float :=
  ⟨[⟨"m", { length := 1 }, Arithmetic.one, 1⟩, ⟨"s", { time := 1 }, Arithmetic.one, -1⟩]⟩

/-- A metre per second and kilogram: two divisors, and still one slash. -/
def meterPerSecondKilogram : CompoundUnit Float :=
  ⟨[⟨"m", { length := 1 }, Arithmetic.one, 1⟩, ⟨"s", { time := 1 }, Arithmetic.one, -1⟩,
    ⟨"kg", { mass := 1 }, Arithmetic.one, -1⟩]⟩

/-- A measurement in `m/s/kg` with one sample. -/
def twoDivisors : Measurement Float :=
  .direct ((DirectMeasurement.empty (.serial 1) "x" "m/s/kg").commit ["1"] none)

/-- A document in which nothing else is measured. -/
def divisors : Document Float := ⟨[twoDivisors], [], .standard, {}⟩

/-- A metre per second comes back from its text. A metre per second and kilogram
    does not, and a mean in this unit has no report. -/
theorem natural_unit_divisors :
    (∃ found, CompoundUnit.read meterPerSecond.text = .ok found ∧
      found.dimension = meterPerSecond.dimension) ∧
    ¬ meterPerSecondKilogram.ReadsBack ∧
    ∃ e, (((Output.make (.serial 2) "x" none).evaluate divisors).run
      (⟨divisors.constants, ⟨⟩⟩ : Propagator (NoMemory Float) Float)).1 = .error e ∧
        e.IsUnitFailure := by
  have hsingle : CompoundUnit.read meterPerSecond.text = .ok meterPerSecond :=
    Outcome.eq_ok_of_toOption _ _ (by decide +kernel)
  have hdouble : CompoundUnit.read "m/s/kg" = .ok meterPerSecondKilogram :=
    Outcome.eq_ok_of_toOption _ _ (by decide +kernel)
  have hother : ∀ found, CompoundUnit.read meterPerSecondKilogram.text = .ok found →
      found.dimension ≠ meterPerSecondKilogram.dimension := by
    intro found hfound hdimension
    have hback : CompoundUnit.read meterPerSecondKilogram.text = .ok
        (⟨meterPerSecondKilogram.asRead⟩ : CompoundUnit Float) :=
      Outcome.eq_ok_of_toOption _ _ (by decide +kernel)
    rw [hback, Except.ok.injEq] at hfound
    have hdiffer : (⟨meterPerSecondKilogram.asRead⟩ : CompoundUnit Float).dimension.toOption ≠
        meterPerSecondKilogram.dimension.toOption := by decide
    exact hdiffer (by rw [hfound, hdimension])
  refine ⟨?_, ?_, ?_⟩
  · have hunit := (natural_unit_iff (σ := NoMemory Float)).1 meterPerSecond (.read _ _ hsingle)
    exact ⟨_, hsingle, (hunit.2 _ hsingle (fun _ => Iff.rfl)).2.1⟩
  · intro hreads
    have hunit := (natural_unit_iff (σ := NoMemory Float)).1 meterPerSecondKilogram
      (.read _ _ hdouble)
    rcases hunit.1.mpr hreads with ⟨found, hfound, hsame⟩
    exact hother found hfound (hunit.2 found hfound hsame).2.1
  · have hreport := ((natural_unit_iff (σ := NoMemory Float)).2 (.make (.serial 2) "x" none)
      divisors twoDivisors ⟨divisors.constants, ⟨⟩⟩ _ _ ⟨1.0, meterPerSecondKilogram⟩
      ⟨0.0, meterPerSecondKilogram⟩ (.inl (constants_mk _ _)) rfl
      (by decide +kernel)
      (Outcome.run_eq_of_toOption _ _ _ (by decide +kernel))
      (Outcome.run_eq_of_toOption _ _ _ (by decide +kernel))).1
    exact hreport.mpr (fun ⟨found, hfound, hdimension⟩ => hother found hfound hdimension)

end Divisors

end Output

end Metrology
