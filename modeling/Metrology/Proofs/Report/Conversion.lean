import Metrology.Proofs.Propagation.Measured
import Metrology.Proofs.Report.NaturalUnit

/-!
# Reports do not fail late

A report is made in steps, and each of them may fail: the mean and the uncertainty
are found, the display unit is read, both values are converted into it, and the
digits of the samples are counted. The failures stop with the conversion of the
mean. The variance of a measurement is in the square of the unit of its mean, with
the same factors in the same order and doubled powers; half of a doubled power is
the power, so the root of the variance is in the unit of the mean again. Hence the
uncertainty is converted wherever the mean is. And where there is a mean, no cycle
is below the measurement and every formula resolves, which is all that counting
needs.

## Theorems

* `Propagator.uncertainty_of_variance`: A variance has a root in the unit of the mean.
* `Propagator.minDigits_of_mean`: Where there is a mean, digits can be counted.
* `Output.reportIn_eq_ok`: When there is a report.
* `Output.converted_report`: A converted mean is reported.
-/

namespace Metrology

variable {σ α : Type} [Scalar α]

namespace Propagator

open Evaluation

/-- The square of a unit has a root, which is in the unit. -/
theorem standardDeviation_of_square [UnitScalar α] (unit : CompoundUnit α) (v : Quantity α)
    (hunit : unit.WellFormed) (hsquare : unit.powInt 2 = .ok v.unit) :
    standardDeviation (some v) = .ok (some ⟨Scalar.sqrt v.value, unit⟩) := by
  rw [standardDeviation, Quantity.sqrt,
    CompoundUnit.powReal_half_powInt_two unit v.unit hunit hsquare]
  rfl

/-- Where there is a mean, digits can be counted. -/
theorem minDigits_of_mean (p : Propagator σ α) (all : List (Measurement α))
    (hids : (p.graph all).DistinctIds) (m : Measurement α) (hm : m ∈ all) (q : Quantity α)
    (h : ((Propagator.mean m all).run p).1 = .ok (some q)) :
    ∃ digits, Propagator.minDigits p.constants m all = .ok digits := by
  rcases (settled_iff p all hids m hm).mp (settled_of_mean p all hids m hm q h) with
    ⟨hacyclic, hresolves⟩
  exact exists_minDigits p all hids m hm hacyclic hresolves

variable [DerivativeStore σ α]

/-- An uncertainty is the root of the variance that is found in the same state. -/
theorem fst_uncertainty (m : Measurement α) (all : List (Measurement α)) (types : UncertaintyTypes)
    (p : Propagator σ α) (variance? : Option (Quantity α))
    (h : ((Propagator.combinedVariance m all types).run p).1 = .ok variance?) :
    ((Propagator.uncertainty m all types).run p).1 = standardDeviation variance? := by
  rw [Propagator.uncertainty, Outcome.run_bind]
  rcases hrun : (Propagator.combinedVariance (σ := σ) m all types).run p with ⟨outcome, next⟩
  rw [hrun] at h
  simp only at h
  rw [h]
  exact congrArg Prod.fst (Outcome.run_mk_pure _ next)

/-- The questions of a report keep the constants. -/
theorem constants_of_run (m : Measurement α) (all : List (Measurement α)) (types : UncertaintyTypes)
    (p next last : Propagator σ α) (q u : Option (Quantity α))
    (hmean : (Propagator.mean m all).run p = (.ok q, next))
    (huncertainty : (Propagator.uncertainty m all types).run next = (.ok u, last)) :
    last.constants = p.constants := by
  have hnext : next.constants = p.constants :=
    congrArg (fun ending => ending.2.constants) hmean.symm
  rw [Propagator.uncertainty, Outcome.run_bind] at huncertainty
  rcases hrun : (Propagator.combinedVariance (σ := σ) m all types).run next with ⟨outcome, after⟩
  have hafter : after.constants = next.constants :=
    congrArg (fun ending => ending.2.constants) hrun.symm
  rw [hrun] at huncertainty
  cases outcome with
  | error e => cases huncertainty
  | ok variance? =>
      have hlast : last.constants = after.constants :=
        congrArg (fun ending => ending.2.constants) huncertainty.symm
      exact hlast.trans (hafter.trans hnext)

/-- A variance is in the square of the unit of the mean, and it has a root in the unit of
    the mean, whatever the stores of the two questions hold. -/
theorem uncertainty_of_variance [UnitScalar α] (p p' : Propagator σ α) (m : Measurement α)
    (all : List (Measurement α)) (types : UncertaintyTypes) (q v : Quantity α)
    (hconstants : p.constants.Derived) (hsame : p'.constants = p.constants)
    (hmean : ((Propagator.mean m all).run p).1 = .ok (some q))
    (hvariance : ((Propagator.combinedVariance m all types).run p').1 = .ok (some v)) :
    v.unit.factors = q.unit.factors.map (UnitFactor.times 2) ∧
      ∃ u, ((Propagator.uncertainty m all types).run p').1 = .ok (some u) ∧ u.unit = q.unit := by
  have huncertainty := fst_uncertainty m all types p' (some v) hvariance
  rw [Propagator.mean, run_ask] at hmean
  rw [Propagator.combinedVariance, run_ask, hsame] at hvariance
  have hwell := (mean_derived _ hconstants _ m p.store q hmean).wellFormed
  have hsquare := combinedVariance_unit _ types _ m p.store p'.store q v hmean hvariance
  rw [standardDeviation_of_square q.unit v hwell hsquare] at huncertainty
  have htimes := (CompoundUnit.powInt_eq_times q.unit v.unit 2 (by decide) hwell hsquare).1
  exact ⟨congrArg CompoundUnit.factors htimes, _, huncertainty, rfl⟩

end Propagator

namespace Output

/-- There is a report when the mean and the uncertainty are converted and the digits are
    counted. -/
theorem reportIn_eq_ok (output : Output) (text : String) (mean uncertainty : Quantity α)
    (unit : CompoundUnit α) (x y : α) (digits : Nat) (hread : CompoundUnit.read text = .ok unit)
    (hmean : mean.numberIn unit = .ok x) (huncertainty : uncertainty.numberIn unit = .ok y) :
    ∃ report, output.reportIn text mean uncertainty (.ok digits) = .ok report ∧
      report.mean = x ∧ report.uncertainty = (if uncertainty.isZero then none else some y) ∧
      report.minDigits = digits := by
  simp only [reportIn, hread, Outcome.mapError_ok, bind, Except.bind, hmean, huncertainty]
  by_cases hzero : uncertainty.isZero = true
  · rw [if_pos hzero, if_pos hzero]
    exact ⟨_, rfl, rfl, rfl, rfl⟩
  · rw [if_neg hzero, if_neg hzero]
    exact ⟨_, rfl, rfl, rfl, rfl⟩

/-- What is measured in the unit of a mean is converted wherever the mean is. -/
theorem numberIn_of_sameUnit (mean uncertainty : Quantity α) (unit : CompoundUnit α) (x : α)
    (hwell : mean.unit.WellFormed) (hsame : uncertainty.unit = mean.unit)
    (h : mean.numberIn unit = .ok x) : ∃ y, uncertainty.numberIn unit = .ok y := by
  rcases hwell.measurable with ⟨d, hd⟩
  rw [numberIn_eq_ok uncertainty unit d (hsame ▸ hd)]
  exact (numberIn_eq_ok mean unit d hd).mp ⟨x, h⟩

variable [DerivativeStore σ α]

/-- Where there are a mean and a variance, the variance is in the unit of the mean with
    every power doubled, and its root is in the unit of the mean. So a report does not fail
    once the mean has been converted into the display unit: the uncertainty is converted
    as well, and the digits are counted. The constants are the document's own or any
    others with derived units. -/
theorem converted_report [UnitScalar α] :
    (∀ (p p' : Propagator σ α) (m : Measurement α) (all : List (Measurement α))
      (types : UncertaintyTypes) (q v : Quantity α),
      p.constants.Derived → p'.constants = p.constants →
      ((Propagator.mean m all).run p).1 = .ok (some q) →
      ((Propagator.combinedVariance m all types).run p').1 = .ok (some v) →
        v.unit.factors = q.unit.factors.map (UnitFactor.times 2) ∧
        ∃ u, ((Propagator.uncertainty m all types).run p').1 = .ok (some u) ∧ u.unit = q.unit) ∧
    ∀ (output : Output) (document : Document α) (m : Measurement α)
      (p next last : Propagator σ α) (mean uncertainty : Quantity α) (unit : CompoundUnit α) (x : α),
      (document.measurements.map Measurement.id).Nodup →
      p.constants = document.constants ∨ p.constants.Derived →
      document.findBySymbol? output.name = some m →
      (Propagator.mean m document.measurements).run p = (.ok (some mean), next) →
      (Propagator.uncertainty m document.measurements document.uncertaintyTypes).run next =
        (.ok (some uncertainty), last) →
      CompoundUnit.read (output.displayUnit.getD mean.unit.text) = .ok unit →
      mean.numberIn unit = .ok x →
        ∃ y digits report, uncertainty.numberIn unit = .ok y ∧
          Propagator.minDigits last.constants m document.measurements = .ok digits ∧
          ((output.evaluate document).run p).1 = .ok (some report) ∧ report.mean = x ∧
          report.uncertainty = (if uncertainty.isZero then none else some y) ∧
          report.minDigits = digits := by
  refine ⟨fun p p' m all types q v hconstants hsame hmean hvariance =>
    Propagator.uncertainty_of_variance p p' m all types q v hconstants hsame hmean hvariance, ?_⟩
  intro output document m p next last mean uncertainty unit x hids hconstants hm hmean
    huncertainty hread hx
  -- The uncertainty is converted, because it has the unit of the mean.
  rcases Propagator.uncertainty_unit m document.measurements document.uncertaintyTypes p next last
    mean uncertainty (derived_of_own p document hconstants) hmean huncertainty with
    ⟨hderived, hsame⟩
  rcases numberIn_of_sameUnit mean uncertainty unit x hderived.wellFormed hsame hx with ⟨y, hy⟩
  -- The digits are counted, because there is a mean; the questions keep the constants.
  have hmem : m ∈ document.measurements := List.mem_of_find?_eq_some hm
  have hkept := Propagator.constants_of_run m document.measurements document.uncertaintyTypes
    p next last _ _ hmean huncertainty
  rcases Propagator.minDigits_of_mean p document.measurements hids m hmem mean
    (congrArg Prod.fst hmean) with ⟨digits, hdigits⟩
  rcases output.reportIn_eq_ok _ mean uncertainty unit x y digits hread hx hy with
    ⟨report, hreport, hvalues⟩
  refine ⟨y, digits, report, hy, hkept ▸ hdigits, ?_, hvalues⟩
  rw [evaluate_eq output document m p next last mean uncertainty hm hmean huncertainty, hkept,
    hdigits, hreport]
  rfl

section Areas

/-- The side of a square in metres, and its area. -/
def square : Document Float where
  measurements := [.direct ((DirectMeasurement.empty (.serial 1) "a" "m").commit ["1", "3"] none),
    .composite ⟨.serial 2, ⟨"s"⟩, ⟨"a * a"⟩⟩]
  outputs := []
  settings := .standard
  uncertaintyTypes := {}

/-- A power of the metre. -/
def meters (power : Int) : CompoundUnit Float := ⟨[⟨"m", { length := 1 }, 1.0, power⟩]⟩

/-- The variance of an area is in `m^4`. Its mean and its uncertainty, both in `m^2`, are
    reported in `cm^2`. -/
theorem converted_report_area :
    let p : Propagator (NoMemory Float) Float := ⟨square.constants, ⟨⟩⟩
    let area : Measurement Float := .composite ⟨.serial 2, ⟨"s"⟩, ⟨"a * a"⟩⟩
    (meters 4).factors = (meters 2).factors.map (UnitFactor.times 2) ∧
      (∃ u, ((Propagator.uncertainty area square.measurements {}).run p).1 = .ok (some u) ∧
        u.unit = meters 2) ∧
      ∃ report, (((Output.make (.serial 3) "s" (some "cm^2")).evaluate square).run p).1 =
        .ok (some report) := by
  intro p area
  have hown : p.constants = square.constants ∨ p.constants.Derived := .inl (constants_mk _ _)
  have hmean : ((Propagator.mean area square.measurements).run p).1 =
      .ok (some ⟨4.0, meters 2⟩) :=
    Outcome.eq_ok_of_toOption _ _ (by decide +kernel)
  have hvariance : ((Propagator.combinedVariance area square.measurements {}).run p).1 =
      .ok (some ⟨16.0, meters 4⟩) :=
    Outcome.eq_ok_of_toOption _ _ (by decide +kernel)
  have hunits := (converted_report (σ := NoMemory Float)).1 p p area square.measurements {} _ _
    (derived_of_own p square hown) rfl hmean hvariance
  rcases (converted_report (σ := NoMemory Float)).2 (Output.make (.serial 3) "s" (some "cm^2"))
    square area p _ _ ⟨4.0, meters 2⟩ ⟨4.0, meters 2⟩ ⟨[⟨"cm", { length := 1 }, 0.01, 2⟩]⟩ 40000.0
    (by decide) hown (by decide +kernel)
    (Outcome.run_eq_of_toOption _ _ _ (by decide +kernel))
    (Outcome.run_eq_of_toOption _ _ _ (by decide +kernel))
    (Outcome.eq_ok_of_toOption _ _ (by decide +kernel))
    (Outcome.eq_ok_of_toOption _ _ (by decide +kernel)) with ⟨-, -, report, -, -, hreport, -⟩
  exact ⟨hunits.1, hunits.2, report, hreport⟩

end Areas

end Output

end Metrology
