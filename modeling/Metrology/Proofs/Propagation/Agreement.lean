import Metrology.Proofs.Propagation.Recomputed
import Metrology.Proofs.Propagation.Units

/-!
# Means, variances and counts of digits agree

Three recursions go down the measurement graph, each with early exits of its own. The one
of a variance begins like the one of the mean: with the formula, the means of the
dependencies and the value of the formula at them. So it fails where the mean fails, with
the same failure, and it is missing where the mean is missing. Conversely, once all means
are there, no variance below is missing: it could only be so for want of samples, and then
a mean would be missing as well. And where there is a mean everything below resolves, so
digits can be counted.

## Main definitions

* `Evaluation.Precedes`: A computation that stops early wherever another one does.

## Theorems

* `Evaluation.compositeMean_precedes`: A variance begins like a mean.
* `Propagator.mean_stops`: A failed or missing mean is a failed or missing variance.
* `Propagator.mean_missing`: A missing variance is a missing mean.
* `Propagator.evaluable_together`: On which measurements the three agree.
-/

namespace Metrology

variable {σ α β γ : Type}

namespace Evaluation

/-- Where the first computation fails or has nothing to return, the second one does the
    same. -/
def Precedes (x : Evaluation σ α (Option β)) (y : Evaluation σ α (Option γ)) : Prop :=
  ∀ context, (∀ e, (x.run context).1 = .error e → (y.run context).1 = .error e) ∧
    ((x.run context).1 = .ok none → (y.run context).1 = .ok none)

namespace Precedes

theorem none : Precedes (σ := σ) (α := α) (pure none : Evaluation σ α (Option β))
    (pure none : Evaluation σ α (Option γ)) :=
  fun _ => ⟨(fun e h => by cases h), fun _ => rfl⟩

/-- What does not stop precedes everything. -/
theorem some (b : β) (y : Evaluation σ α (Option γ)) : Precedes (pure (some b)) y :=
  fun _ => ⟨(fun e h => by cases h), (fun h => by cases h)⟩

/-- Two sequences with the same first step. -/
theorem bind {δ : Type} (x : Evaluation σ α δ) (f : δ → Evaluation σ α (Option β))
    (f' : δ → Evaluation σ α (Option γ)) (h : ∀ d, Precedes (f d) (f' d)) :
    Precedes (x >>= f) (x >>= f') := by
  intro context
  rw [Outcome.run_bind, Outcome.run_bind]
  rcases x.run context with ⟨e | d, next⟩
  · exact ⟨fun _ h => Except.error.inj h ▸ rfl, fun h => by cases h⟩
  · exact h d next

end Precedes

variable [Scalar α] [DerivativeStore σ α]

/-- A variance begins like a mean. -/
theorem compositeMean_precedes (g : Graph α)
    (meanOf varianceOf : Measurement α → Evaluation σ α (Option (Quantity α)))
    (m : CompositeMeasurement) :
    Precedes (compositeMean g meanOf m) (compositeVariance g meanOf varianceOf m) := by
  refine Precedes.bind _ _ _ fun tree => Precedes.bind _ _ _ fun bound? => ?_
  cases bound? with
  | none => exact Precedes.none
  | some bound => exact Precedes.bind _ _ _ fun q => Precedes.some q _

end Evaluation

namespace Propagator

open Evaluation

variable [Scalar α] [DerivativeStore σ α]

/-- The variance of a composite measurement stops early wherever its mean does. -/
theorem mean_stops (p : Propagator σ α) (all : List (Measurement α)) (m : CompositeMeasurement)
    (types : UncertaintyTypes) :
    (∀ e, ((Propagator.mean (.composite m) all).run p).1 = .error e →
      ((Propagator.combinedVariance (.composite m) all types).run p).1 = .error e) ∧
      (((Propagator.mean (.composite m) all).run p).1 = .ok none →
        ((Propagator.combinedVariance (.composite m) all types).run p).1 = .ok none) := by
  rw [Propagator.mean, Propagator.combinedVariance, run_ask, run_ask]
  simp only
  -- Both are asked of the same graph, with the same fuel.
  generalize Graph.depth _ _ = fuel
  cases fuel with
  | zero =>
      rw [Evaluation.mean, Evaluation.combinedVariance, fst_remembered_fresh, run_cycle]
      exact ⟨fun _ h => h, fun h => by cases h⟩
  | succ fuel =>
      rw [Evaluation.mean, Evaluation.combinedVariance, fst_remembered_fresh, fst_within_fresh,
        fst_within_fresh]
      exact compositeMean_precedes _ _ _ m _

/-- A missing variance is a missing mean. -/
theorem mean_missing (p : Propagator σ α) (all : List (Measurement α))
    (hids : (p.graph all).DistinctIds) (m : Measurement α) (hm : m ∈ all)
    (types : UncertaintyTypes)
    (h : ((Propagator.combinedVariance m all types).run p).1 = .ok none) :
    ((Propagator.mean m all).run p).1 = .ok none := by
  have hpursuit := Graph.Pursuit.start (p.graph all) m hm
  have hfuel : (p.graph all).depth m ≤ ([] : List CompositeMeasurement).length +
      (p.graph all).depth m := Nat.le_add_left _ _
  have hpaired : Paired (p.graph all) [] (.fresh p.store) (.fresh p.store) :=
    .fresh (Meets.follows_fresh p.store)
  have hmean : (p.graph all).HasMean m none :=
    (combinedVariance_recomputes _ hids m types _ [] m hpursuit hfuel _ _ hpaired).2.1 none h rfl
  have hanew := run_meanAnew_of_hasMean _ hids m m none hmean [] _ (Context.fresh p.store)
    hpursuit hfuel rfl
  have hsame := (mean_recomputes _ hids m _ [] m hpursuit hfuel _ _ hpaired).1
  rw [hanew] at hsame
  exact hsame

/-- A composite measurement has no variance and no uncertainty where it has no mean, for
    one and the same reason: all of them fail with one failure, or mean and variance are
    missing together. And where it has a mean, digits can be counted. -/
theorem evaluable_together (p : Propagator σ α) (all : List (Measurement α))
    (hids : (all.map Measurement.id).Nodup) (m : CompositeMeasurement)
    (hm : .composite m ∈ all) (types : UncertaintyTypes) :
    (∀ e, ((Propagator.mean (.composite m) all).run p).1 = .error e →
      ((Propagator.combinedVariance (.composite m) all types).run p).1 = .error e ∧
        ((Propagator.uncertainty (.composite m) all types).run p).1 = .error e) ∧
    (((Propagator.mean (.composite m) all).run p).1 = .ok none ↔
      ((Propagator.combinedVariance (.composite m) all types).run p).1 = .ok none) ∧
    ∀ q, ((Propagator.mean (.composite m) all).run p).1 = .ok (some q) →
      ∃ digits, Propagator.minDigits p.constants (.composite m) all = .ok digits := by
  rcases mean_stops p all m types with ⟨herror, hnone⟩
  refine ⟨fun e he => ⟨herror e he, ?_⟩, ⟨hnone, mean_missing p all hids _ hm types⟩, ?_⟩
  · -- The root is taken of a variance only.
    have hvariance := herror e he
    rw [Propagator.uncertainty, Outcome.run_bind]
    rcases hrun : (Propagator.combinedVariance (σ := σ) (.composite m) all types).run p with
      ⟨outcome, next⟩
    rw [hrun] at hvariance
    simp only at hvariance
    rw [hvariance]
  · intro q hq
    have hsettled := (mean_outcome p all hids _ hm).1 (some q) hq rfl
    rcases (settled_iff p all hids _ hm).mp hsettled with ⟨hacyclic, hresolves⟩
    exact exists_minDigits p all hids _ hm hacyclic hresolves

/-- A length without samples, and its double. -/
def unmeasured : List (Measurement Float) :=
  [.direct (.empty ⟨1⟩ "l" "m"), .composite ⟨⟨2⟩, ⟨"d"⟩, ⟨"2 * l"⟩⟩]

/-- The double of a length without samples has neither a mean nor a variance. -/
theorem evaluable_together_unmeasured :
    ((Propagator.mean (.composite ⟨⟨2⟩, ⟨"d"⟩, ⟨"2 * l"⟩⟩) unmeasured).run
        (⟨Bindings.empty, ⟨⟩⟩ : Propagator (NoMemory Float) Float)).1 = .ok none ∧
      ((Propagator.combinedVariance (.composite ⟨⟨2⟩, ⟨"d"⟩, ⟨"2 * l"⟩⟩) unmeasured {}).run
        (⟨Bindings.empty, ⟨⟩⟩ : Propagator (NoMemory Float) Float)).1 = .ok none := by
  have hmean : ((Propagator.mean (.composite ⟨⟨2⟩, ⟨"d"⟩, ⟨"2 * l"⟩⟩) unmeasured).run
      (⟨Bindings.empty, ⟨⟩⟩ : Propagator (NoMemory Float) Float)).1 = .ok none := by
    have hnone : ((Propagator.mean (.composite ⟨⟨2⟩, ⟨"d"⟩, ⟨"2 * l"⟩⟩) unmeasured).run
        (⟨Bindings.empty, ⟨⟩⟩ : Propagator (NoMemory Float) Float)).1.toOption.map
          Option.isNone = some true := by decide +kernel
    rcases Option.map_eq_some_iff.mp hnone with ⟨v, hv, hnone⟩
    rw [Outcome.eq_ok_of_toOption _ v hv, Option.isNone_iff_eq_none.mp hnone]
  have hmem : .composite ⟨⟨2⟩, ⟨"d"⟩, ⟨"2 * l"⟩⟩ ∈ unmeasured :=
    List.mem_cons_of_mem _ List.mem_cons_self
  have hagree := evaluable_together (⟨Bindings.empty, ⟨⟩⟩ : Propagator (NoMemory Float) Float)
    unmeasured (by decide) ⟨⟨2⟩, ⟨"d"⟩, ⟨"2 * l"⟩⟩ hmem {}
  exact ⟨hmean, hagree.2.1.mp hmean⟩

end Propagator

end Metrology
