import Metrology.Proofs.Propagation.Graph
import Metrology.Proofs.Propagation.Units

/-!
# Cycles in the measurement graph

The evaluation reports a cycle exactly when there is one. The report is right:
its labels are those of a walk along references that comes back to a measurement
it has been at, or a measurement that references itself is named twice. And no
cycle is overlooked: a question that is answered has found everything below the
measurement settled. A mean may be missing before a cycle is met, because some
measurement has no samples, so only present means say this. Counting digits
needs no samples and always descends to the end, hence it reports every cycle
unless something else is wrong first.

The variance of a composite measurement asks for the means of its dependencies
first, on the path it is on itself. So a present variance says of cycles what a
present mean says, and the descent into the variances adds nothing.

## Main definitions

* `Graph.Reports`: The labels that report a cycle.
* `Evaluation.cycleAccount`, `Evaluation.cycleDigits`: Cycles as accounts of
  means and of digits.

## Theorems

* `Graph.Reports.exists_cycle`: A report means a cycle.
* `Evaluation.compositeVariance_meets`, `Evaluation.combinedVariance_meets`: What
  variances say of cycles.
* `Propagator.mean_outcome`, `Propagator.combinedVariance_outcome`,
  `Propagator.uncertainty_outcome`, `Propagator.minDigits_outcome`: The questions,
  one by one.
* `Propagator.settled_iff`: A measurement is settled when it reaches no cycle and
  everything below it resolves.
* `Propagator.exists_minDigits`: Then its digits can be counted.
* `Propagator.cycle_detection`: Cycles are reported, and what is reported is one.
-/

namespace Metrology

namespace Graph

variable {α : Type}

/-- The labels that report a cycle below a measurement: those of a walk whose last
    measurement was on it before, or a symbol that a formula and its measurement
    share. -/
inductive Reports (g : Graph α) (start : Measurement α) : List String → Prop
  | walk (path : List CompositeMeasurement) (m : CompositeMeasurement)
      (hwalk : g.Walk start path (.composite m)) (hm : m ∈ path) :
      Reports g start ((path ++ [m]).map (·.label))
  | self (m : CompositeMeasurement) (symbol : String) (hreaches : g.Reaches start (.composite m))
      (hself : g.SelfReference m symbol) : Reports g start [symbol, symbol]

/-- A report means that a cycle is reached. -/
theorem Reports.exists_cycle (g : Graph α) (start : Measurement α) (labels : List String)
    (h : g.Reports start labels) :
    ∃ m, g.Reaches start (.composite m) ∧
      (g.OnCycle (.composite m) ∨ ∃ symbol, g.SelfReference m symbol) := by
  cases h with
  | walk path m hwalk hm =>
      exact ⟨m, hwalk.reaches, Or.inl (hwalk.mem_path _ _ _ _ m hm).2⟩
  | self m symbol hreaches hself => exact ⟨m, hreaches, Or.inr ⟨symbol, hself⟩⟩

/-- What resolving fails with, where a measurement is reached. -/
theorem reports_of_dependencies (g : Graph α) (start : Measurement α) (m : CompositeMeasurement)
    (labels : List String) (hreaches : g.Reaches start (.composite m))
    (h : g.dependencies m = .error (.cyclicReference labels)) : g.Reports start labels := by
  rcases g.selfReference_of_dependencies m labels h with ⟨symbol, hself, rfl⟩
  exact .self m symbol hreaches hself

/-- What a closed path is reported as. -/
theorem Approach.reports (g : Graph α) (hids : g.DistinctIds) (start : Measurement α)
    (path : List CompositeMeasurement) (m : CompositeMeasurement)
    (h : g.Approach start path (.composite m))
    (hclosed : m.id ∈ path.map (·.id) ∨ g.depth start ≤ path.length) :
    g.Reports start (path.map (·.label) ++ [m.label]) := by
  have hreport := Reports.walk path m h.walk (h.mem_path g hids start path m hclosed)
  rwa [List.map_append, List.map_singleton] at hreport

/-- Resolved dependencies of an approached measurement are approached. -/
theorem Approach.dependency (g : Graph α) (hids : g.DistinctIds) (start : Measurement α)
    (path : List CompositeMeasurement) (m : CompositeMeasurement)
    (dependencies : List (Measurement α)) (h : g.Approach start path (.composite m))
    (hnew : m.id ∉ path.map (·.id)) (hdependencies : g.dependencies m = .ok dependencies) :
    ∀ dependency ∈ dependencies, g.Approach start (path ++ [m]) dependency :=
  fun dependency hmem => h.enter g start path m dependency hnew
    ((g.mem_dependencies_iff hids m dependencies hdependencies dependency).mp hmem)

end Graph

namespace Evaluation

variable {σ α : Type}

/-- A failure that, if it reports a cycle, does so rightly. -/
def ReportsRightly (g : Graph α) (start : Measurement α) (e : PropagationError α) : Prop :=
  ∀ labels, e = .cyclicReference labels → g.Reports start labels

/-- A failure of counting digits: a reported cycle, or dependencies that are not
    resolved. -/
def DigitsFailure (g : Graph α) (start : Measurement α) (e : PropagationError α) : Prop :=
  (∃ labels, e = .cyclicReference labels ∧ g.Reports start labels) ∨
    ∃ m, g.Reaches start (.composite m) ∧ g.dependencies m = .error e

/-- Evaluating a formula reports no cycle. -/
theorem ofEval_reports (g : Graph α) (start : Measurement α) (e : EvalError α) :
    ReportsRightly g start (.ofEval e) := by
  intro labels h
  cases e <;> cases h

/-- Units that do not match report no cycle. -/
theorem unitMismatch_reports (g : Graph α) (start : Measurement α) (cause : UnitError α) :
    ReportsRightly g start (.unitMismatch cause) := by
  intro labels h
  cases h

/-- A unit that cannot be read reports no cycle. -/
theorem invalidUnit_reports (g : Graph α) (start : Measurement α) (source : String)
    (cause : UnitError α) : ReportsRightly g start (.invalidUnit source cause) := by
  intro labels h
  cases h

/-- Cycles as an account of digits. -/
def cycleDigits (g : Graph α) (hids : g.DistinctIds) (start : Measurement α) :
    DigitsAccount g where
  reached := g.Approach start
  value := g.Settled
  failure _ := DigitsFailure g start
  limit := g.depth start
  direct_value _ m _ := .direct m
  closes path m h hclosed := Or.inl ⟨_, rfl, h.reports g hids start path m hclosed⟩
  unresolved _ m _ h herror := Or.inr ⟨m, h.walk.reaches, herror⟩
  enters path m dependencies h hnew hdependencies :=
    h.dependency g hids start path m dependencies hnew hdependencies
  fails _ _ _ _ _ _ _ _ h := h
  counted _ m dependencies _ hdependencies h := .composite m dependencies hdependencies h

/-- With the means of all its dependencies bound, a measurement is settled if present
    means say so. -/
theorem settled_of_binds (g : Graph α) (m : CompositeMeasurement)
    (dependencies : List (Measurement α)) (bound result : Bindings α)
    (hdependencies : g.dependencies m = .ok dependencies)
    (hbinds : Binds (fun m v => v.isSome → g.Settled m) dependencies bound result) :
    g.Settled (.composite m) := by
  refine .composite m dependencies hdependencies (fun dependency hmem => ?_)
  rcases hbinds.values _ dependencies _ _ dependency hmem with ⟨q, hq⟩
  exact hq rfl

variable [Scalar α]

theorem directVariance_reports (g : Graph α) (start : Measurement α) (m : DirectMeasurement α)
    (types : UncertaintyTypes) (e : PropagationError α) (h : directVariance m types = .error e) :
    ReportsRightly g start e := by
  rw [directVariance, Outcome.bind_eq_error] at h
  rcases h with hunit | ⟨unit, -, h⟩
  · rcases directUnit_eq_error m e hunit with ⟨cause, rfl⟩
    exact invalidUnit_reports g start m.unit cause
  · split at h
    · cases h
    · rw [Outcome.bind_eq_error, Outcome.mapError_eq_error] at h
      rcases h with ⟨cause, -, rfl⟩ | ⟨square, -, h⟩
      · exact unitMismatch_reports g start cause
      · cases h

/-- Cycles as an account of means. -/
def cycleAccount (g : Graph α) (hids : g.DistinctIds) (start : Measurement α) :
    MeanAccount g where
  reached := g.Approach start
  value m v := v.isSome → g.Settled m
  failure _ := ReportsRightly g start
  known id v := ∀ m ∈ g.measurements, m.id = id → v.isSome → g.Settled m
  limit := g.depth start
  value_of_known _ m v h hknown := hknown m h.mem rfl
  known_of_value _ m v h hvalue := by
    intro other hother hid
    rw [hids.eq_of_id g other m hother h.mem hid]
    exact hvalue
  direct_value _ m _ _ _ _ := .direct m
  direct_failure _ m e _ h := by
    rcases directMean_eq_error m e h with ⟨cause, rfl⟩
    exact invalidUnit_reports g start m.unit cause
  closes path m h hclosed := by
    intro labels he
    rw [← PropagationError.cyclicReference.inj he]
    exact h.reports g hids start path m hclosed
  unresolved _ m e h herror := by
    intro labels he
    exact g.reports_of_dependencies start m labels h.walk.reaches (he ▸ herror)
  enters path m dependencies h hnew hdependencies :=
    h.dependency g hids start path m dependencies hnew hdependencies
  fails _ _ _ _ _ _ _ _ h := h
  missing _ _ _ _ _ _ _ _ h := by cases h
  evaluated _ m tree dependencies bound q _ _ hdependencies hbinds _ _ :=
    settled_of_binds g m dependencies _ bound hdependencies hbinds
  unevaluated _ _ _ _ _ e _ _ _ _ _ := ofEval_reports g start e

variable [DerivativeStore σ α]

/-- What the variance of a composite measurement says of cycles, if the means and
    the variances of its dependencies say the same. -/
theorem compositeVariance_meets (g : Graph α) (hids : g.DistinctIds) (start : Measurement α)
    (path : List CompositeMeasurement) (m : CompositeMeasurement)
    (h : g.Approach start path (.composite m)) (hnew : m.id ∉ path.map (·.id))
    (meanOf varianceOf : Measurement α → Evaluation σ α (Option (Quantity α)))
    (hmean : ∀ dependency, g.Approach start (path ++ [m]) dependency →
      Meets (Context.Follows (cycleAccount g hids start).known (path ++ [m])) (meanOf dependency)
        (fun v => v.isSome → g.Settled dependency) (ReportsRightly g start))
    (hvariance : ∀ dependency, g.Approach start (path ++ [m]) dependency →
      Meets (Context.Follows (cycleAccount g hids start).known (path ++ [m]))
        (varianceOf dependency) (fun _ => True) (ReportsRightly g start)) :
    Meets (Context.Follows (cycleAccount g hids start).known (path ++ [m]))
      (compositeVariance g meanOf varianceOf m) (fun v => v.isSome → g.Settled (.composite m))
      (ReportsRightly g start) := by
  let account := cycleAccount g hids start
  refine Meets.bind _ _ (fun _ => True) _
    (Meets.ofExcept _ _ (fun _ _ => trivial) (fun e htree => ?_)) (fun tree _ => ?_)
  · refine account.unresolved path m e h ?_
    rw [Graph.dependencies, htree]
    rfl
  refine Meets.bind _ _ (account.Bound m) _
    (account.bindings_meets path m meanOf h hnew hmean) ?_
  rintro result? ⟨dependencies, hdependencies, ⟨rfl, -⟩ | ⟨bound, rfl, hbinds⟩⟩
  · exact Meets.pure none _ (fun hnone => by cases hnone)
  · -- With all means at hand everything below the measurement is settled.
    have hsettled := settled_of_binds g m dependencies _ bound hdependencies hbinds
    refine Meets.bind _ _ (fun _ => True) _
      (Meets.ofExcept _ _ (fun _ _ => trivial) (fun e heval => ?_)) (fun mean _ => ?_)
    · rcases (Outcome.mapError_eq_error _ _ _).mp heval with ⟨cause, -, rfl⟩
      exact ofEval_reports g start cause
    refine Meets.bind _ _ (fun _ => True) _
      (Meets.ofExcept _ _ (fun _ _ => trivial) (fun e hunit => ?_)) (fun unit _ => ?_)
    · rcases (Outcome.mapError_eq_error _ _ _).mp hunit with ⟨cause, -, rfl⟩
      exact unitMismatch_reports g start cause
    -- The dependencies are resolved a second time, for the terms.
    refine Meets.bind _ _ (fun found => g.dependencies m = .ok found) _
      (Meets.ofExcept _ _ (fun _ h => h) (fun e he => account.unresolved path m e h he))
      (fun found hfound => ?_)
    refine (Meets.addTerms (path ++ [m]) _ bound _ (fun _ => True)
      (unitMismatch_reports g start) (ofEval_reports g start) found _
      (fun dependency hmem => ?_)).weaken _ _ _ _ (fun _ _ _ => hsettled) (fun _ h => h)
    exact (hvariance dependency (account.enters path m found h hnew hfound dependency hmem)).weaken
      _ _ _ _ (fun _ _ _ => trivial) (fun _ h => h)

/-- What variances say of cycles: the failures report rightly, and below a
    measurement with a variance everything is settled. -/
theorem combinedVariance_meets (g : Graph α) (hids : g.DistinctIds) (start : Measurement α)
    (types : UncertaintyTypes) (fuel : Nat) :
    ∀ path m, g.Approach start path m → g.depth start ≤ path.length + fuel →
      Meets (Context.Follows (σ := σ) (cycleAccount g hids start).known path)
        (combinedVariance g types fuel m) (fun v => v.isSome → g.Settled m)
        (ReportsRightly g start) := by
  have hdirect : ∀ path m, Meets (Context.Follows (σ := σ) (cycleAccount g hids start).known path)
      (ofExcept (directVariance m types)) (fun v => v.isSome → g.Settled (.direct m))
      (ReportsRightly g start) := by
    intro path m
    exact Meets.ofExcept _ _ (fun _ _ _ => .direct m)
      (directVariance_reports g start m types)
  induction fuel with
  | zero =>
      intro path m h hlimit
      cases m with
      | direct m => exact hdirect path m
      | composite m =>
          refine Meets.cycle path m _ ?_
          exact (cycleAccount g hids start).closes path m h (Or.inr hlimit)
  | succ fuel ih =>
      intro path m h hlimit
      cases m with
      | direct m => exact hdirect path m
      | composite m =>
          let account := cycleAccount g hids start
          refine Meets.within path m _ _
            (fun hmem => account.closes path m h (Or.inl hmem)) (fun hnew => ?_)
          have hlength : g.depth start ≤ (path ++ [m]).length + fuel :=
            le_length_concat _ fuel path m hlimit
          -- The means are asked for with the same fuel, on the same path.
          refine compositeVariance_meets g hids start path m h hnew _ _
            (fun dependency hdep => account.meets fuel (path ++ [m]) dependency hdep hlength)
            (fun dependency hdep => ?_)
          exact (ih (path ++ [m]) dependency hdep hlength).weaken _ _ _ _ (fun _ _ => trivial)
            (fun _ h => h)

end Evaluation

namespace Propagator

open Evaluation

variable {σ α : Type}

/-- The graph that a propagator is asked about. -/
abbrev graph (p : Propagator σ α) (all : List (Measurement α)) : Graph α := ⟨all, p.constants⟩

theorem minDigits_outcome (p : Propagator σ α) (all : List (Measurement α))
    (hids : (p.graph all).DistinctIds) (m : Measurement α) (hm : m ∈ all) :
    (∀ digits, Propagator.minDigits p.constants m all = .ok digits → (p.graph all).Settled m) ∧
      ∀ e, Propagator.minDigits p.constants m all = .error e → DigitsFailure (p.graph all) m e :=
  ((cycleDigits (p.graph all) hids m).meets (σ := NoMemory α) (fun _ _ => True)
    ((p.graph all).depth m) [] m (.start _ m hm) (Nat.le_add_left _ _)).outcome _ _ _
      (Meets.follows_fresh _)

/-- Where no cycle is reached and everything below resolves, digits are counted: the
    count descends to the end, and there is nothing to fail for. -/
theorem exists_minDigits (p : Propagator σ α) (all : List (Measurement α))
    (hids : (p.graph all).DistinctIds) (m : Measurement α) (hm : m ∈ all)
    (hacyclic : ∀ other, (p.graph all).Reaches m other → ¬ (p.graph all).OnCycle other)
    (hresolves : ∀ c, (p.graph all).Reaches m (.composite c) →
      ∃ dependencies, (p.graph all).dependencies c = .ok dependencies) :
    ∃ digits, Propagator.minDigits p.constants m all = .ok digits := by
  cases hcount : Propagator.minDigits p.constants m all with
  | ok digits => exact ⟨digits, rfl⟩
  | error e =>
      exfalso
      rcases (minDigits_outcome p all hids m hm).2 e hcount with
        ⟨labels, -, hreports⟩ | ⟨c, hreaches, herror⟩
      · rcases hreports.exists_cycle with ⟨c, hreaches, hcycle | ⟨symbol, hself⟩⟩
        · exact hacyclic _ hreaches hcycle
        · rcases hresolves c hreaches with ⟨dependencies, hdependencies⟩
          exact hself.not_resolved _ hids c symbol dependencies hdependencies
      · rcases hresolves c hreaches with ⟨dependencies, hdependencies⟩
        rw [herror] at hdependencies
        cases hdependencies

/-- A measurement is settled when no cycle is reached from it and everything below
    it resolves. -/
theorem settled_iff (p : Propagator σ α) (all : List (Measurement α))
    (hids : (p.graph all).DistinctIds) (m : Measurement α) (hm : m ∈ all) :
    (p.graph all).Settled m ↔
      (∀ other, (p.graph all).Reaches m other → ¬ (p.graph all).OnCycle other) ∧
        ∀ c, (p.graph all).Reaches m (.composite c) →
          ∃ dependencies, (p.graph all).dependencies c = .ok dependencies := by
  constructor
  · intro h
    refine ⟨fun other hreaches => ?_, fun c hreaches => ?_⟩
    · exact (h.of_reaches _ hids m other hreaches).acyclic _ hids
    · exact (h.of_reaches _ hids m _ hreaches).resolves
  · rintro ⟨hacyclic, hresolves⟩
    rcases exists_minDigits p all hids m hm hacyclic hresolves with ⟨digits, hdigits⟩
    exact (minDigits_outcome p all hids m hm).1 digits hdigits

/-- The labels of a cycle, where counting reports one. -/
def reportedCycle? : Except (PropagationError α) Nat → Option (List String)
  | .error (.cyclicReference labels) => some labels
  | _ => none

theorem eq_error_of_reportedCycle? (outcome : Except (PropagationError α) Nat)
    (labels : List String) (h : reportedCycle? outcome = some labels) :
    outcome = .error (.cyclicReference labels) := by
  unfold reportedCycle? at h
  split at h
  · rw [Option.some.inj h]
  · cases h

variable [Scalar α]

theorem mean_outcome (p : Propagator σ α) (all : List (Measurement α))
    (hids : (p.graph all).DistinctIds) (m : Measurement α) (hm : m ∈ all) :
    (∀ v, ((Propagator.mean m all).run p).1 = .ok v → v.isSome → (p.graph all).Settled m) ∧
      ∀ e, ((Propagator.mean m all).run p).1 = .error e → ReportsRightly (p.graph all) m e :=
  ((cycleAccount (p.graph all) hids m).meets ((p.graph all).depth m) [] m (.start _ m hm)
    (Nat.le_add_left _ _)).outcome _ _ _ (Meets.follows_fresh p.store)

variable [DerivativeStore σ α]

theorem combinedVariance_outcome (p : Propagator σ α) (all : List (Measurement α))
    (hids : (p.graph all).DistinctIds) (m : Measurement α) (hm : m ∈ all)
    (types : UncertaintyTypes) :
    (∀ v, ((Propagator.combinedVariance m all types).run p).1 = .ok v → v.isSome →
      (p.graph all).Settled m) ∧
    ∀ e, ((Propagator.combinedVariance m all types).run p).1 = .error e →
      ReportsRightly (p.graph all) m e :=
  (combinedVariance_meets (p.graph all) hids m types ((p.graph all).depth m) [] m
    (.start _ m hm) (Nat.le_add_left _ _)).outcome _ _ _ (Meets.follows_fresh p.store)

/-- An uncertainty fails where the variance fails, or for a unit. -/
theorem uncertainty_outcome (p : Propagator σ α) (all : List (Measurement α))
    (hids : (p.graph all).DistinctIds) (m : Measurement α) (hm : m ∈ all)
    (types : UncertaintyTypes) (e : PropagationError α)
    (h : ((Propagator.uncertainty m all types).run p).1 = .error e) :
    ReportsRightly (p.graph all) m e := by
  rw [Propagator.uncertainty, Outcome.run_bind] at h
  -- Either the variance fails, or its root does, and that only for a unit.
  rcases hrun : (Propagator.combinedVariance (σ := σ) m all types).run p with ⟨cause | v, next⟩
  · rw [hrun] at h
    have hvariance := (combinedVariance_outcome p all hids m hm types).2 cause
    rw [hrun] at hvariance
    exact Except.error.inj h ▸ hvariance rfl
  · rw [hrun] at h
    have hroot : standardDeviation v = .error e := h
    cases v with
    | none => cases hroot
    | some variance =>
        intro labels he
        rw [standardDeviation, he] at hroot
        cases hsqrt : variance.sqrt with
        | ok root => rw [hsqrt] at hroot; cases hroot
        | error cause => rw [hsqrt] at hroot; cases hroot

/-- Cycles are reported, and what is reported is one. First, the labels of a
    reported cycle are those of a walk that comes back, or of a symbol that a
    formula shares with its measurement, so a cycle is reached. Second, where there
    is a mean, a variance or a count of digits, no cycle is reached and every
    formula below resolves. Third, where nothing but cycles keeps formulas from
    resolving, a reached cycle is reported by the count of digits. -/
theorem cycle_detection (p : Propagator σ α) (all : List (Measurement α))
    (hids : (all.map Measurement.id).Nodup) (m : Measurement α) (hm : m ∈ all)
    (types : UncertaintyTypes) :
    (∀ labels,
      ((Propagator.mean m all).run p).1 = .error (.cyclicReference labels) ∨
      ((Propagator.combinedVariance m all types).run p).1 = .error (.cyclicReference labels) ∨
      ((Propagator.uncertainty m all types).run p).1 = .error (.cyclicReference labels) ∨
      Propagator.minDigits p.constants m all = .error (.cyclicReference labels) →
        (p.graph all).Reports m labels ∧
        ∃ c, (p.graph all).Reaches m (.composite c) ∧
          ((p.graph all).OnCycle (.composite c) ∨ ∃ symbol, (p.graph all).SelfReference c symbol)) ∧
    ((∃ q, ((Propagator.mean m all).run p).1 = .ok (some q)) ∨
      (∃ v, ((Propagator.combinedVariance m all types).run p).1 = .ok (some v)) ∨
      (∃ digits, Propagator.minDigits p.constants m all = .ok digits) →
        (∀ other, (p.graph all).Reaches m other → ¬ (p.graph all).OnCycle other) ∧
        ∀ c, (p.graph all).Reaches m (.composite c) →
          ∃ dependencies, (p.graph all).dependencies c = .ok dependencies) ∧
    ((∃ c, (p.graph all).Reaches m (.composite c) ∧
        ((p.graph all).OnCycle (.composite c) ∨ ∃ symbol, (p.graph all).SelfReference c symbol)) →
      (∀ c, (p.graph all).Reaches m (.composite c) →
        (∃ dependencies, (p.graph all).dependencies c = .ok dependencies) ∨
        ∃ labels, (p.graph all).dependencies c = .error (.cyclicReference labels)) →
      ∃ labels, Propagator.minDigits p.constants m all = .error (.cyclicReference labels)) := by
  have hdistinct : (p.graph all).DistinctIds := hids
  have hmean := mean_outcome p all hdistinct m hm
  have hvariance := combinedVariance_outcome p all hdistinct m hm types
  have hdigits := minDigits_outcome p all hdistinct m hm
  refine ⟨?_, ?_, ?_⟩
  · intro labels h
    have hreports : (p.graph all).Reports m labels := by
      rcases h with h | h | h | h
      · exact hmean.2 _ h labels rfl
      · exact hvariance.2 _ h labels rfl
      · exact uncertainty_outcome p all hdistinct m hm types _ h labels rfl
      · rcases hdigits.2 _ h with ⟨found, hfound, hreports⟩ | ⟨c, hreaches, hdependencies⟩
        · rw [PropagationError.cyclicReference.inj hfound]
          exact hreports
        · exact Graph.reports_of_dependencies _ m c labels hreaches hdependencies
    exact ⟨hreports, hreports.exists_cycle⟩
  · intro h
    have hsettled : (p.graph all).Settled m := by
      rcases h with ⟨q, h⟩ | ⟨v, h⟩ | ⟨digits, h⟩
      · exact hmean.1 _ h rfl
      · exact hvariance.1 _ h rfl
      · exact hdigits.1 digits h
    exact (settled_iff p all hdistinct m hm).mp hsettled
  · rintro ⟨c, hreaches, hcycle⟩ hresolve
    -- A count that succeeds would have settled the measurement on the cycle.
    cases hcount : Propagator.minDigits p.constants m all with
    | ok digits =>
        have hsettled := (hdigits.1 digits hcount).of_reaches _ hdistinct m _ hreaches
        rcases hcycle with hcycle | ⟨symbol, hself⟩
        · exact absurd hcycle (hsettled.acyclic _ hdistinct)
        · rcases hsettled.resolves with ⟨dependencies, hdependencies⟩
          exact absurd hdependencies (hself.not_resolved _ hdistinct c symbol dependencies)
    | error e =>
        rcases hdigits.2 e hcount with ⟨labels, rfl, -⟩ | ⟨other, hother, herror⟩
        · exact ⟨labels, rfl⟩
        · rcases hresolve other hother with ⟨dependencies, hok⟩ | ⟨labels, hlabels⟩
          · rw [herror] at hok
            cases hok
          · rw [herror, Except.error.injEq] at hlabels
            exact ⟨labels, by rw [hlabels]⟩

/-- Two formulas, each of which mentions the other. -/
def eachOther : List (Measurement Float) :=
  [.composite ⟨⟨1⟩, ⟨"a"⟩, ⟨"2 * b"⟩⟩, .composite ⟨⟨2⟩, ⟨"b"⟩, ⟨"a + 1"⟩⟩]

/-- The count of digits below one of them reports the cycle, and it is one. -/
theorem cycle_detection_eachOther :
    Propagator.minDigits Bindings.empty (.composite ⟨⟨1⟩, ⟨"a"⟩, ⟨"2 * b"⟩⟩) eachOther =
        .error (.cyclicReference ["a", "b", "a"]) ∧
      ∃ c, (⟨eachOther, Bindings.empty⟩ : Graph Float).Reaches
          (.composite ⟨⟨1⟩, ⟨"a"⟩, ⟨"2 * b"⟩⟩) (.composite c) ∧
        ((⟨eachOther, Bindings.empty⟩ : Graph Float).OnCycle (.composite c) ∨
          ∃ symbol, (⟨eachOther, Bindings.empty⟩ : Graph Float).SelfReference c symbol) := by
  have hcount := eq_error_of_reportedCycle? (Propagator.minDigits Bindings.empty
    (.composite ⟨⟨1⟩, ⟨"a"⟩, ⟨"2 * b"⟩⟩) eachOther) ["a", "b", "a"] (by decide +kernel)
  have hcycle := (cycle_detection (⟨Bindings.empty, ⟨⟩⟩ : Propagator (NoMemory Float) Float)
    eachOther (by decide) (.composite ⟨⟨1⟩, ⟨"a"⟩, ⟨"2 * b"⟩⟩) List.mem_cons_self {}).1
      ["a", "b", "a"] (Or.inr (Or.inr (Or.inr hcount)))
  exact ⟨hcount, hcycle.2⟩

end Propagator

end Metrology
