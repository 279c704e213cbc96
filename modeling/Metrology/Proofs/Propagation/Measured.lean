import Metrology.Proofs.Propagation.Inlining
import Metrology.Proofs.Propagation.Transparency

/-!
# Present results

What the presence of a result says of what is below the measurement. A composite
measurement has a mean only if every direct measurement below it has one, and a
variance only if it has a mean. So where there is a result, there are samples and
units everywhere below, and each mean below is the value of an inlined formula.

## Main definitions

* `Graph.measuredMeans`: Present means as an account.

## Theorems

* `Propagator.measured_of_mean`: With a mean there are means everywhere below.
* `Propagator.mean_of_combinedVariance`: With a variance there is a mean.
* `Propagator.settled_of_mean`, `Propagator.denotes_of_mean`: With a mean
  everything below is settled, and the mean is what it should be.
-/

namespace Metrology

variable {σ α : Type} [Scalar α]

namespace Graph

theorem measured_direct (g : Graph α) (d : DirectMeasurement α) (q : Quantity α)
    (h : Evaluation.directMean d = .ok (some q)) : g.Measured (.direct d) := by
  intro other hreaches
  rcases Relation.ReflTransGen.cases_head hreaches with hsame | ⟨next, href, -⟩
  · rw [← Measurement.direct.inj hsame]
    exact ⟨q, h⟩
  · exact href.elim

/-- A composite measurement with measured dependencies is measured. -/
theorem measured_composite (g : Graph α) (hids : g.DistinctIds) (m : CompositeMeasurement)
    (dependencies : List (Measurement α)) (hdependencies : g.dependencies m = .ok dependencies)
    (h : ∀ dependency ∈ dependencies, g.Measured dependency) : g.Measured (.composite m) := by
  intro d hreaches
  rcases Relation.ReflTransGen.cases_head hreaches with hsame | ⟨next, href, hrest⟩
  · cases hsame
  · exact h next ((g.mem_dependencies_iff hids m dependencies hdependencies next).mpr href) d hrest

/-- Present means as an account. -/
def measuredMeans (g : Graph α) (hids : g.DistinctIds) (start : Measurement α) :
    Evaluation.MeanAccount g where
  reached := g.Approach start
  value m v := v.isSome → g.Measured m
  failure _ _ := True
  known id v := ∀ m ∈ g.measurements, m.id = id → v.isSome → g.Measured m
  limit := g.depth start
  value_of_known _ m v h hknown := hknown m h.mem rfl
  known_of_value _ m v h hvalue := by
    intro other hother hid
    rw [hids.eq_of_id g other m hother h.mem hid]
    exact hvalue
  direct_value _ d v _ hmean := by
    intro hsome
    rcases Option.isSome_iff_exists.mp hsome with ⟨q, rfl⟩
    exact g.measured_direct d q hmean
  direct_failure _ _ _ _ _ := True.intro
  closes _ _ _ _ := True.intro
  unresolved _ _ _ _ _ := True.intro
  enters path m dependencies h hnew hdependencies :=
    h.dependency g hids start path m dependencies hnew hdependencies
  fails _ _ _ _ _ _ _ _ _ := True.intro
  missing _ _ _ _ _ _ _ _ h := by cases h
  evaluated _ m tree dependencies bound q _ _ hdependencies hbinds _ _ := by
    refine g.measured_composite hids m dependencies hdependencies (fun dependency hmem => ?_)
    rcases hbinds.values _ dependencies _ _ dependency hmem with ⟨q, hq⟩
    exact hq rfl
  unevaluated _ _ _ _ _ _ _ _ _ _ _ := True.intro

end Graph

namespace Propagator

open Evaluation

/-- With a mean there are means everywhere below. -/
theorem measured_of_mean (p : Propagator σ α) (all : List (Measurement α))
    (hids : (p.graph all).DistinctIds) (m : Measurement α) (hm : m ∈ all) (q : Quantity α)
    (h : ((Propagator.mean m all).run p).1 = .ok (some q)) : (p.graph all).Measured m :=
  (((Graph.measuredMeans (p.graph all) hids m).meets ((p.graph all).depth m) [] m (.start _ m hm)
    (Nat.le_add_left _ _)).outcome _ _ _ (Meets.follows_fresh p.store)).1 (some q) h rfl

/-- With a mean everything below is settled. -/
theorem settled_of_mean (p : Propagator σ α) (all : List (Measurement α))
    (hids : (p.graph all).DistinctIds) (m : Measurement α) (hm : m ∈ all) (q : Quantity α)
    (h : ((Propagator.mean m all).run p).1 = .ok (some q)) : (p.graph all).Settled m :=
  (mean_outcome p all hids m hm).1 (some q) h rfl

/-- A mean is what it should be. -/
theorem denotes_of_mean (p : Propagator σ α) (all : List (Measurement α))
    (hids : (p.graph all).DistinctIds) (hsymbols : (p.graph all).DistinctSymbols)
    (m : Measurement α) (hm : m ∈ all) (q : Quantity α)
    (h : ((Propagator.mean m all).run p).1 = .ok (some q)) (bound : Bindings α)
    (hoverlays : (p.graph all).Overlays m bound) : (p.graph all).Denotes bound m q := by
  let account := Graph.inlinedMeans (p.graph all) hids hsymbols m hm bound hoverlays
    (settled_of_mean p all hids m hm q h) (measured_of_mean p all hids m hm q h)
  rcases ((account.meets ((p.graph all).depth m) [] m (.start _ m hm)
    (Nat.le_add_left _ _)).outcome _ _ _ (Meets.follows_fresh p.store)).1 (some q) h with
    ⟨found, hfound, hdenotes⟩
  exact Option.some.inj hfound ▸ hdenotes

variable [DerivativeStore σ α]

/-- With a variance there is a mean. -/
theorem mean_of_combinedVariance (p : Propagator σ α) (all : List (Measurement α))
    (m : CompositeMeasurement) (types : UncertaintyTypes) (v : Quantity α)
    (h : ((Propagator.combinedVariance (.composite m) all types).run p).1 = .ok (some v)) :
    ∃ q, ((Propagator.mean (.composite m) all).run p).1 = .ok (some q) := by
  rw [Propagator.combinedVariance, run_ask] at h
  simp only at h
  rw [Propagator.mean, run_ask]
  simp only
  -- Both are asked of the same graph, with the same fuel.
  generalize Graph.depth _ _ = fuel at h ⊢
  cases fuel with
  | zero =>
      rw [Evaluation.combinedVariance, run_cycle] at h
      cases h
  | succ fuel =>
      rw [Evaluation.combinedVariance, fst_within_fresh] at h
      -- The variance finds the mean on its way, from the same means below.
      rcases compositeVariance_unit _ _ _ m _ v h with ⟨tree, bound, q, htree, hbound, heval, -⟩
      refine ⟨q, ?_⟩
      rw [Evaluation.mean, fst_remembered_fresh, fst_within_fresh, compositeMean,
        fst_ofExcept_bind_eq_ok]
      refine ⟨tree, htree, ?_⟩
      rw [Outcome.fst_bind_eq_ok]
      refine ⟨some bound, _, Prod.ext hbound rfl, ?_⟩
      simp only [ofEval]
      rw [fst_ofExcept_bind_eq_ok]
      exact ⟨q, (Outcome.mapError_eq_ok _ _ _).mpr heval, rfl⟩

end Propagator

end Metrology
