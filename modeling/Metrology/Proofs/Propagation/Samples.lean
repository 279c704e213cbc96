import Metrology.Proofs.Propagation.Law
import Metrology.Proofs.Propagation.Measured

/-!
# Missing means

A mean is missing for one reason: some direct measurement below has no samples. The
evaluation stops at the first dependency without a mean, and whatever is behind it is not
looked at, so it may be without samples, without a unit or on a cycle as well. A mean that
is there has found samples and a unit in every direct measurement below.

## Main definitions

* `Graph.Unsampled`: Some direct measurement below has no samples.
* `Graph.sampleLaw`: Present and missing means as a law.

## Theorems

* `Evaluation.directMean_eq_none`: A direct measurement misses its mean without samples.
* `Propagator.mean_of_samples`: A mean is there or missing by what is sampled below.
-/

namespace Metrology

variable {σ α : Type}

namespace Graph

/-- Some direct measurement that is reached has no samples. -/
def Unsampled (g : Graph α) (m : Measurement α) : Prop :=
  ∃ d, g.Reaches m (.direct d) ∧ d.values = []

end Graph

variable [Scalar α]

/-- A direct measurement misses its mean exactly without samples. -/
theorem Evaluation.directMean_eq_none (d : DirectMeasurement α) :
    directMean d = .ok none ↔ d.values = [] := by
  rw [← Statistics.mean_eq_none_iff, directMean, DirectMeasurement.meanValue]
  cases Statistics.mean d.values with
  | none => exact ⟨fun _ => rfl, fun _ => rfl⟩
  | some mean =>
      refine ⟨fun h => ?_, fun h => by cases h⟩
      rcases (Outcome.bind_eq_ok _ _ _).mp h with ⟨unit, -, hvalue⟩
      cases hvalue

/-- Present and missing means as a law. -/
def Graph.sampleLaw (g : Graph α) (hids : g.DistinctIds) : Evaluation.MeanLaw g where
  value m v := (v.isSome → g.Measured m) ∧ (v = none → g.Unsampled m)
  failure _ _ := True
  direct_value d v h := by
    refine ⟨fun hsome => ?_, fun hnone => ?_⟩
    · rcases Option.isSome_iff_exists.mp hsome with ⟨q, rfl⟩
      exact g.measured_direct d q h
    · exact ⟨d, .refl, (Evaluation.directMean_eq_none d).mp (hnone ▸ h)⟩
  direct_failure _ _ _ := True.intro
  closes _ _ := True.intro
  unresolved _ _ _ := True.intro
  fails _ _ _ _ _ _ _ := True.intro
  missing m dependencies hdependencies dependency hmem h := by
    refine ⟨fun hsome => (by cases hsome), fun _ => ?_⟩
    -- What is missing below the dependency is missing below the measurement.
    rcases h.2 rfl with ⟨d, hreaches, hsamples⟩
    have href := g.references_of_mem_dependencies m dependencies hdependencies dependency hmem
    exact ⟨d, .head href hreaches, hsamples⟩
  evaluated m tree dependencies bound q _ hdependencies hbinds _ := by
    refine ⟨fun _ => ?_, fun hnone => (by cases hnone)⟩
    refine g.measured_composite hids m dependencies hdependencies fun dependency hmem => ?_
    rcases hbinds.values _ dependencies _ _ dependency hmem with ⟨q, hq⟩
    exact hq.1 rfl
  unevaluated _ _ _ _ _ _ _ _ _ := True.intro

namespace Propagator

/-- A mean that is there has found samples and a unit in every direct measurement that is
    reached. A missing mean has found one without samples. So where all of them have
    samples, there is a mean or a failure. -/
theorem mean_of_samples (p : Propagator σ α) (all : List (Measurement α))
    (hids : (all.map Measurement.id).Nodup) (m : Measurement α) :
    (∀ q, ((Propagator.mean m all).run p).1 = .ok (some q) →
      ∀ d, (p.graph all).Reaches m (.direct d) →
        d.values ≠ [] ∧ ∃ unit, CompoundUnit.read (α := α) d.unit = .ok unit) ∧
    (((Propagator.mean m all).run p).1 = .ok none →
      ∃ d, (p.graph all).Reaches m (.direct d) ∧ d.values = []) ∧
    ((∀ d, (p.graph all).Reaches m (.direct d) → d.values ≠ []) →
      (∃ q, ((Propagator.mean m all).run p).1 = .ok (some q)) ∨
        ∃ e, ((Propagator.mean m all).run p).1 = .error e) := by
  have hlaw := (Evaluation.MeanLaw.holds p all ((p.graph all).sampleLaw hids) hids m).1
  refine ⟨fun q hq d hreaches => ?_, fun hnone => (hlaw none hnone).2 rfl, fun hsamples => ?_⟩
  · rcases (hlaw (some q) hq).1 rfl d hreaches with ⟨mean, hmean⟩
    rcases Evaluation.directMean_eq_ok d mean hmean with ⟨value, hvalue, hunit, -⟩
    refine ⟨fun hempty => ?_, mean.unit, (Evaluation.directUnit_eq_ok d mean.unit).mp hunit⟩
    rw [(Evaluation.directMean_eq_none d).mpr hempty] at hmean
    cases hmean
  · cases hmean : ((Propagator.mean m all).run p).1 with
    | error e => exact Or.inr ⟨e, rfl⟩
    | ok mean? =>
        cases mean? with
        | some q => exact Or.inl ⟨q, rfl⟩
        | none =>
            rcases (hlaw none hmean).2 rfl with ⟨d, hreaches, hempty⟩
            exact absurd hempty (hsamples d hreaches)

/-- A sampled length and its double, and a time without samples that divides the double. -/
def partlySampled : List (Measurement Float) :=
  [.direct { DirectMeasurement.empty ⟨1⟩ "l" "m" with values := [1.5] },
    .composite ⟨⟨2⟩, ⟨"d"⟩, ⟨"2 * l"⟩⟩, .direct (.empty ⟨3⟩ "t" "s"),
    .composite ⟨⟨4⟩, ⟨"v"⟩, ⟨"d / t"⟩⟩]

/-- Below the double there are samples and units, and the quotient misses the samples of
    the time. -/
theorem mean_of_samples_partly :
    (∀ d, (⟨partlySampled, Bindings.empty⟩ : Graph Float).Reaches
        (.composite ⟨⟨2⟩, ⟨"d"⟩, ⟨"2 * l"⟩⟩) (.direct d) →
      d.values ≠ [] ∧ ∃ unit, CompoundUnit.read (α := Float) d.unit = .ok unit) ∧
    (∃ d, (⟨partlySampled, Bindings.empty⟩ : Graph Float).Reaches
        (.composite ⟨⟨4⟩, ⟨"v"⟩, ⟨"d / t"⟩⟩) (.direct d) ∧ d.values = []) ∧
    ((∃ q, ((Propagator.mean (.composite ⟨⟨2⟩, ⟨"d"⟩, ⟨"2 * l"⟩⟩) partlySampled).run
        (⟨Bindings.empty, ⟨⟩⟩ : Propagator (NoMemory Float) Float)).1 = .ok (some q)) ∨
      ∃ e, ((Propagator.mean (.composite ⟨⟨2⟩, ⟨"d"⟩, ⟨"2 * l"⟩⟩) partlySampled).run
        (⟨Bindings.empty, ⟨⟩⟩ : Propagator (NoMemory Float) Float)).1 = .error e) := by
  let p : Propagator (NoMemory Float) Float := ⟨Bindings.empty, ⟨⟩⟩
  have hids : (partlySampled.map Measurement.id).Nodup := by decide
  have hdouble : ∃ q, ((Propagator.mean (.composite ⟨⟨2⟩, ⟨"d"⟩, ⟨"2 * l"⟩⟩) partlySampled).run
      p).1 = .ok (some q) := Outcome.exists_of_toOption_isSome _ (by decide +kernel)
  have hquotient : ((Propagator.mean (.composite ⟨⟨4⟩, ⟨"v"⟩, ⟨"d / t"⟩⟩) partlySampled).run
      p).1 = .ok none := Outcome.eq_ok_none_of_toOption_isNone _ (by decide +kernel)
  have habove := mean_of_samples p partlySampled hids (.composite ⟨⟨2⟩, ⟨"d"⟩, ⟨"2 * l"⟩⟩)
  have hbelow := (mean_of_samples p partlySampled hids (.composite ⟨⟨4⟩, ⟨"v"⟩, ⟨"d / t"⟩⟩)).2.1
  rcases hdouble with ⟨q, hq⟩
  have hsampled := habove.1 q hq
  exact ⟨hsampled, hbelow hquotient, habove.2.2 fun d hreaches => (hsampled d hreaches).1⟩

end Propagator

end Metrology
