import Metrology.Proofs.Propagation.Linearized
import Metrology.Proofs.Propagation.Means

/-!
# Variances apart from the path

On the real numbers, the variance of a composite measurement is a sum over its own
dependencies: the square of the derivative of the formula at the means, times the
variance of the dependency. Nothing else goes into it, neither what the measurement was
asked for nor what had been found by then. So the variance that is found of a
measurement on the way to another one is the variance that is found of it alone.

This is the law of one step. It needs no smooth formulas and no tree: what is reached in
two ways contributes in two ways.

## Main definitions

* `Graph.Present`: A mean that is there is the mean.
* `Graph.presentMeans`: Such means as an account.
* `Graph.slope`: How a formula varies with a dependency.
* `Graph.HasVariance`: The variance of a measurement as a number.
* `Graph.numericVariances`: Variances as numbers as an account.

## Theorems

* `Graph.HasVariance.unique`: A measurement has one variance.
* `Propagator.hasVariance_of_combinedVariance`: What is found is the variance.
-/

namespace Metrology

/-- The bindings that means lead to are those of the means that have been found. -/
theorem Evaluation.Binds.found {α : Type} (value : Measurement α → Option (Quantity α) → Prop)
    (dependencies : List (Measurement α)) (bound result : Bindings α)
    (h : Binds value dependencies bound result) :
    ∃ found : List (Measurement α × Quantity α), dependencies = found.map Prod.fst ∧
      (∀ entry ∈ found, value entry.1 (some entry.2)) ∧ result = bound.overlaid found := by
  induction h with
  | done bound => exact ⟨[], rfl, fun _ hmem => absurd hmem List.not_mem_nil, rfl⟩
  | named dependency rest symbol q bound result hsymbol hvalue _ ih =>
      rcases ih with ⟨found, rfl, hfound, rfl⟩
      refine ⟨(dependency, q) :: found, rfl, List.forall_mem_cons.mpr ⟨hvalue, hfound⟩, ?_⟩
      rw [Bindings.overlaid, Bindings.overlaid, List.foldl_cons, Bindings.overlay, hsymbol]
  | unnamed dependency rest q bound result hsymbol hvalue _ ih =>
      rcases ih with ⟨found, rfl, hfound, rfl⟩
      refine ⟨(dependency, q) :: found, rfl, List.forall_mem_cons.mpr ⟨hvalue, hfound⟩, ?_⟩
      rw [Bindings.overlaid, Bindings.overlaid, List.foldl_cons, Bindings.overlay, hsymbol]

namespace Graph

open Evaluation

section Means

variable {α : Type} [Scalar α] (g : Graph α)

/-- A mean that is there is the mean of the measurement. -/
def Present (m : Measurement α) (value : Option (Quantity α)) : Prop :=
  ∀ q, value = some q → g.HasMean m (some q)

/-- The same dependencies lead to the same bindings. -/
theorem binds_unique (dependencies : List (Measurement α)) (bound bound' : Bindings α)
    (h : Binds g.Present dependencies g.constants bound)
    (h' : Binds g.Present dependencies g.constants bound') : bound = bound' := by
  rcases h.found with ⟨found, hall, hfound, rfl⟩
  rcases h'.found with ⟨found', hall', hfound', rfl⟩
  rw [found_unique found found' (hall.symm.trans hall') fun entry hentry entry' hentry' hsame => ?_]
  have hmean := hfound entry hentry entry.2 rfl
  rw [hsame] at hmean
  exact Option.some.inj (hmean.unique g _ _ _ (hfound' entry' hentry' entry'.2 rfl))

/-- Means that are there as an account. -/
def presentMeans (hids : g.DistinctIds) (start : Measurement α) : MeanAccount g where
  reached := g.Approach start
  value := g.Present
  failure _ _ := True
  known id v := ∀ m ∈ g.measurements, m.id = id → g.Present m v
  limit := g.depth start
  value_of_known _ m v h hknown := hknown m h.mem rfl
  known_of_value _ m v h hvalue := by
    intro other hother hid
    rw [hids.eq_of_id g other m hother h.mem hid]
    exact hvalue
  direct_value _ d v _ hmean := by
    rintro q rfl
    exact .direct d (some q) hmean
  direct_failure _ _ _ _ _ := True.intro
  closes _ _ _ _ := True.intro
  unresolved _ _ _ _ _ := True.intro
  enters path m dependencies h hnew hdependencies :=
    h.dependency g hids start path m dependencies hnew hdependencies
  fails _ _ _ _ _ _ _ _ _ := True.intro
  missing _ _ _ _ _ _ _ _ q hq := by cases hq
  evaluated _ m tree dependencies bound q _ htree hdependencies hbinds hvalue := by
    rcases hbinds.found with ⟨found, rfl, hfound, rfl⟩
    rintro q' hq'
    rw [← Option.some.inj hq']
    exact .present m tree found q htree hdependencies
      (fun entry hentry => hfound entry hentry entry.2 rfl) hvalue
  unevaluated _ _ _ _ _ _ _ _ _ _ _ := True.intro

end Means

section Variances

variable (g : Graph ℝ) (types : UncertaintyTypes)

/-- How a formula varies with a dependency, at the numbers that are bound. -/
noncomputable def slope (bound : Bindings ℝ) (tree : Expr Decimal) (m : Measurement ℝ) : ℝ :=
  ((Expr.ofDecimals tree).differentiate (m.symbol?.getD "")).denote bound.value

/-- The variance of a measurement as a number of coherent SI units: that of the samples
    and limits, or the sum of what the dependencies contribute. -/
inductive HasVariance : Measurement ℝ → ℝ → Prop
  | direct (m : DirectMeasurement ℝ) (v : Quantity ℝ)
      (h : directVariance m types = .ok (some v)) : HasVariance (.direct m) v.value
  | composite (m : CompositeMeasurement) (tree : Expr Decimal) (dependencies : List (Measurement ℝ))
      (bound : Bindings ℝ) (variance : Measurement ℝ → ℝ) (htree : m.tree (α := ℝ) = .ok tree)
      (hdependencies : g.dependencies m = .ok dependencies)
      (hbinds : Binds g.Present dependencies g.constants bound)
      (hvariance : ∀ dependency ∈ dependencies, HasVariance dependency (variance dependency)) :
      HasVariance (.composite m)
        (dependencies.map fun dependency =>
          slope bound tree dependency ^ 2 * variance dependency).sum

/-- A measurement has one variance. -/
theorem HasVariance.unique (m : Measurement ℝ) (v w : ℝ) (hv : g.HasVariance types m v)
    (hw : g.HasVariance types m w) : v = w := by
  induction hv generalizing w with
  | direct m v h =>
      cases hw with
      | direct m w h' => rw [Option.some.inj (Except.ok.inj (h.symm.trans h'))]
  | composite m tree dependencies bound variance htree hdependencies hbinds _ ih =>
      cases hw with
      | composite m tree' dependencies' bound' variance' htree' hdependencies' hbinds' hvariance' =>
          rw [htree, Except.ok.injEq] at htree'
          rw [hdependencies, Except.ok.injEq] at hdependencies'
          subst htree' hdependencies'
          rw [g.binds_unique dependencies bound bound' hbinds hbinds']
          refine congrArg List.sum (List.map_congr_left fun dependency hmem => ?_)
          rw [ih dependency hmem _ (hvariance' dependency hmem)]

/-- What is added up for a composite measurement is its variance. -/
theorem hasVariance_of_adds (m : CompositeMeasurement)
    (tree : Expr Decimal) (dependencies : List (Measurement ℝ)) (bound : Bindings ℝ)
    (unit : CompoundUnit ℝ) (result : Quantity ℝ) (htree : m.tree (α := ℝ) = .ok tree)
    (hdependencies : g.dependencies m = .ok dependencies)
    (hbinds : Binds g.Present dependencies g.constants bound)
    (h : Adds (fun m v => ∀ w, v = some w → g.HasVariance types m w.value) (.ofDecimals tree) bound
      dependencies (.inUnit Arithmetic.zero unit) result) :
    g.HasVariance types (.composite m) result.value := by
  have hnamed := g.symbol_of_dependencies m dependencies hdependencies
  have hvariances : ∀ dependency, ∃ v, dependency ∈ dependencies →
      g.HasVariance types dependency v := by
    intro dependency
    by_cases hmem : dependency ∈ dependencies
    · rcases h.variances _ _ _ _ _ _ dependency hmem (hnamed dependency hmem) with ⟨w, hw⟩
      exact ⟨w.value, fun _ => hw w rfl⟩
    · exact ⟨0, fun hmem' => absurd hmem' hmem⟩
  choose variance hvariance using hvariances
  rw [h.value_eq _ _ _ (fun dependency => slope bound tree dependency ^ 2 * variance dependency) _ _
    _ hnamed (fun dependency hmem symbol w hsymbol hw => ?_), Quantity.value_inUnit_zero, zero_add]
  · exact .composite m tree dependencies bound variance htree hdependencies hbinds hvariance
  · rw [slope, hsymbol, Option.getD_some,
      (hvariance dependency hmem).unique g types dependency _ _ (hw w rfl)]

/-- Variances as numbers as an account. -/
def numericVariances (hids : g.DistinctIds) (start : Measurement ℝ) :
    VarianceAccount (g.presentMeans hids start) types where
  variance m v := ∀ w, v = some w → g.HasVariance types m w.value
  failure _ _ := True
  direct_variance _ d v _ hv := by
    rintro w rfl
    exact .direct d w hv
  direct_failure _ _ _ _ _ := True.intro
  of_mean _ _ _ _ _ := True.intro
  fails _ _ _ _ _ _ _ _ _ := True.intro
  missing_mean _ _ _ _ _ _ _ _ w hw := by cases hw
  missing _ _ _ _ _ _ _ _ w hw := by cases hw
  square_fails _ _ _ _ _ _ _ _ _ := True.intro
  term_fails _ _ _ _ _ _ _ _ _ _ _ _ _ _ _ _ _ _ _ _ := True.intro
  summed _ m tree dependencies bound _ unit h _ result hadds := by
    intro w hw
    rw [← Option.some.inj hw]
    exact g.hasVariance_of_adds types m tree dependencies bound unit result h.tree_eq
      h.dependencies_eq h.binds hadds

end Variances

end Graph

namespace Propagator

open Evaluation

variable {σ : Type} [DerivativeStore σ ℝ]

/-- The variance that a propagator finds is the variance of the measurement. -/
theorem hasVariance_of_combinedVariance (p : Propagator σ ℝ) (all : List (Measurement ℝ))
    (hids : (all.map Measurement.id).Nodup) (m : Measurement ℝ) (hm : m ∈ all)
    (types : UncertaintyTypes) (hstore : DerivativeStore.Answers ((p.graph all).Asks m) p.store)
    (v : Quantity ℝ)
    (h : ((Propagator.combinedVariance m all types).run p).1 = .ok (some v)) :
    (p.graph all).HasVariance types m v.value := by
  rw [combinedVariance_noMemory p all hids m types hstore] at h
  exact ((((p.graph all).numericVariances types hids m).meets ((p.graph all).depth m) [] m
    (.start _ m hm) (Nat.le_add_left _ _)).outcome _ _ _ (Meets.follows_fresh _)).1 (some v) h v rfl

end Propagator

end Metrology
