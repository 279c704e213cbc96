import Metrology.Proofs.Propagation.Cycle

/-!
# Laws of means

What is claimed of means wherever they are met. A law speaks of a measurement, its mean
and its failure, and not of the path that led to it. A composite measurement passes the
law on from its dependencies, and closing a cycle is a failure that the law allows
everywhere. Then no fuel has to be counted: where it is used up, the law holds of the
failure.

Means are remembered under identifiers, so a law is an account of the measurements of the
graph, of which each identifier has one. The measurement that is asked about need not be
one of them. Its own mean is remembered last, when nothing is left to be looked up, and
everything that it mentions is in the graph.

## Main definitions

* `Evaluation.MeanLaw`: What is claimed of means and their failures.
* `Evaluation.MeanLaw.account`: A law as an account.

## Theorems

* `Evaluation.MeanLaw.holds`: Means are as the law claims.
-/

namespace Metrology.Evaluation

variable {σ α : Type} [Scalar α]

/-- What is claimed of means and of their failures, and why a composite measurement
    passes it on. -/
structure MeanLaw (g : Graph α) where
  value : Measurement α → Option (Quantity α) → Prop
  failure : Measurement α → PropagationError α → Prop
  direct_value : ∀ m v, directMean m = .ok v → value (.direct m) v
  direct_failure : ∀ m e, directMean m = .error e → failure (.direct m) e
  closes : ∀ m labels, failure (.composite m) (.cyclicReference labels)
  unresolved : ∀ m e, g.dependencies m = .error e → failure (.composite m) e
  fails : ∀ m dependencies, g.dependencies m = .ok dependencies →
    ∀ dependency ∈ dependencies, ∀ e, failure dependency e → failure (.composite m) e
  missing : ∀ m dependencies, g.dependencies m = .ok dependencies →
    ∀ dependency ∈ dependencies, value dependency none → value (.composite m) none
  evaluated : ∀ m tree dependencies bound q, m.tree (α := α) = .ok tree →
    g.dependencies m = .ok dependencies → Binds value dependencies g.constants bound →
      (Expr.ofDecimals tree).evaluate bound = .ok q → value (.composite m) (some q)
  unevaluated : ∀ m tree dependencies bound e, m.tree (α := α) = .ok tree →
    g.dependencies m = .ok dependencies → Binds value dependencies g.constants bound →
      (Expr.ofDecimals tree).evaluate bound = .error e → failure (.composite m) (.ofEval e)

namespace MeanLaw

/-- A law as an account of the measurements of the graph. -/
def account {g : Graph α} (law : MeanLaw g) (hids : g.DistinctIds) : MeanAccount g where
  reached _ m := m ∈ g.measurements
  value := law.value
  failure := law.failure
  known id v := ∀ m ∈ g.measurements, m.id = id → law.value m v
  -- No path is too long, because the law allows every closed one.
  limit := 0
  value_of_known _ m _ hm h := h m hm rfl
  known_of_value _ m v hm h other hother hid := by
    rw [hids.eq_of_id g other m hother hm hid]
    exact h
  direct_value _ m v _ := law.direct_value m v
  direct_failure _ m e _ := law.direct_failure m e
  closes _ m _ _ := law.closes m _
  unresolved _ m e _ := law.unresolved m e
  enters _ m dependencies _ _ h dependency hmem :=
    (g.references_of_mem_dependencies m dependencies h dependency hmem).mem
  fails _ m dependencies _ := law.fails m dependencies
  missing _ m dependencies _ := law.missing m dependencies
  evaluated _ m tree dependencies bound q _ := law.evaluated m tree dependencies bound q
  unevaluated _ m tree dependencies bound e _ := law.unevaluated m tree dependencies bound e

/-- Means are as the law claims, and so are their failures. -/
theorem holds (p : Propagator σ α) (all : List (Measurement α)) (law : MeanLaw (p.graph all))
    (hids : (p.graph all).DistinctIds) (m : Measurement α) :
    (∀ v, ((Propagator.mean m all).run p).1 = .ok v → law.value m v) ∧
      ∀ e, ((Propagator.mean m all).run p).1 = .error e → law.failure m e := by
  rw [Propagator.mean, Propagator.run_ask]
  simp only
  generalize Graph.depth _ _ = fuel
  cases m with
  | direct m =>
      rw [Evaluation.mean, fst_remembered_fresh, run_ofExcept]
      exact ⟨law.direct_value m, law.direct_failure m⟩
  | composite m =>
      cases fuel with
      | zero =>
          rw [Evaluation.mean, fst_remembered_fresh, run_cycle]
          exact ⟨fun _ h => (by cases h), fun _ h => Except.error.inj h ▸ law.closes m _⟩
      | succ fuel =>
          rw [Evaluation.mean, fst_remembered_fresh, fst_within_fresh]
          -- What the measurement mentions is in the graph, also where it is not itself.
          have hdependencies : ∀ dependencies, (p.graph all).dependencies m = .ok dependencies →
              ∀ dependency ∈ dependencies,
                Meets (Context.Follows (σ := σ) (law.account hids).known [m])
                  (Evaluation.mean (p.graph all) fuel dependency) (law.value dependency)
                  (law.failure (.composite m)) := by
            intro dependencies h dependency hmem
            have href :=
              (p.graph all).references_of_mem_dependencies m dependencies h dependency hmem
            exact ((law.account hids).meets fuel [m] dependency href.mem
              (Nat.zero_le _)).weaken _ _ _ _ (fun _ h => h)
                (law.fails m dependencies h dependency hmem)
          exact (Meets.compositeMean (p.graph all) m _ law.value _ (law.unresolved m) hdependencies
            (law.missing m) (law.evaluated m) (law.unevaluated m)).outcome _ _ _
              (Meets.follows_inside m p.store)

end MeanLaw

end Metrology.Evaluation
