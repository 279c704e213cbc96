import Metrology.Proofs.Propagation.Means

/-!
# Remembered means are the means

An evaluation that remembers means runs side by side with the recursion that finds each
of them anew. Whatever is remembered is the mean of the measurements that it is
remembered for, also when it was found on another path and also when the evaluation that
found it failed later on. Where a mean is remembered, the other recursion finds it anew.
Where none is, both do the same. So both have the same outcome, a value or a failure with
all that it says, and leave contexts of which the same is true.

## Main definitions

* `Graph.Known`: What may be remembered under an identifier.
* `Evaluation.Paired`: Contexts of which only one has remembered means.
* `Evaluation.Recomputes`: Computations with one outcome, one of which remembers means.

## Theorems

* `Evaluation.Recomputes.bind`, `Evaluation.Recomputes.within`,
  `Evaluation.Recomputes.remembered`, `Evaluation.Recomputes.bindMeans`,
  `Evaluation.Recomputes.addTerms`: The rules.
* `Evaluation.mean_recomputes`, `Evaluation.combinedVariance_recomputes`: Means and
  variances are what they are without a memory.
-/

namespace Metrology

variable {σ α β γ : Type} [Scalar α]

/-- What may be remembered under an identifier. -/
def Graph.Known (g : Graph α) (id : RecordId) (v : Option (Quantity α)) : Prop :=
  ∀ m ∈ g.measurements, m.id = id → g.HasMean m v

namespace Evaluation

/-- Contexts on one path with one store. The means that the first one remembers are
    those of the graph. -/
structure Paired (g : Graph α) (path : List CompositeMeasurement)
    (context plain : Context σ α) : Prop where
  follows : context.Follows g.Known path
  path_eq : plain.path = path.map CompositeMeasurement.entry
  store_eq : plain.store = context.store

/-- A context on no path is paired with a fresh one. -/
theorem Paired.fresh {g : Graph α} {context : Context σ α} (h : context.Follows g.Known []) :
    Paired g [] context (.fresh context.store) :=
  ⟨h, rfl, rfl⟩

/-- Computations with one outcome, the first of which remembers means, with values of a
    given kind. -/
def Recomputes (g : Graph α) (path : List CompositeMeasurement) (x y : Evaluation σ α β)
    (value : β → Prop) : Prop :=
  ∀ context plain, Paired g path context plain →
    (x.run context).1 = (y.run plain).1 ∧ (∀ b, (x.run context).1 = .ok b → value b) ∧
      Paired g path (x.run context).2 (y.run plain).2

namespace Recomputes

variable {g : Graph α} {path : List CompositeMeasurement}

theorem pure (b : β) (value : β → Prop) (h : value b) :
    Recomputes (σ := σ) g path (Pure.pure b) (Pure.pure b) value :=
  fun _ _ hpaired => ⟨rfl, fun _ hok => Except.ok.inj hok ▸ h, hpaired⟩

theorem ofExcept (outcome : Except (PropagationError α) β) (value : β → Prop)
    (h : ∀ b, outcome = .ok b → value b) :
    Recomputes (σ := σ) g path (Evaluation.ofExcept outcome) (Evaluation.ofExcept outcome) value :=
  fun _ _ hpaired => ⟨rfl, h, hpaired⟩

theorem cycle (m : CompositeMeasurement) (value : β → Prop) :
    Recomputes (σ := σ) g path (Evaluation.cycle m) (Evaluation.cycle m) value := by
  intro context plain hpaired
  rw [run_cycle, run_cycle, hpaired.path_eq, hpaired.follows.path_eq]
  exact ⟨rfl, (fun b hok => by cases hok), hpaired⟩

theorem bind (x y : Evaluation σ α β) (f f' : β → Evaluation σ α γ) (between : β → Prop)
    (value : γ → Prop) (hx : Recomputes g path x y between)
    (hf : ∀ b, between b → Recomputes g path (f b) (f' b) value) :
    Recomputes g path (x >>= f) (y >>= f') value := by
  intro context plain hpaired
  rcases hx context plain hpaired with ⟨houtcome, hbetween, hnext⟩
  rw [Outcome.run_bind, Outcome.run_bind]
  generalize x.run context = ending at houtcome hbetween hnext ⊢
  generalize y.run plain = ending' at houtcome hnext ⊢
  rcases ending with ⟨outcome, next⟩
  rcases ending' with ⟨outcome', next'⟩
  simp only at houtcome
  subst houtcome
  cases outcome with
  | error e => exact ⟨rfl, (fun b hok => by cases hok), hnext⟩
  | ok b => exact hf b (hbetween b rfl) next next' hnext

theorem weaken (x y : Evaluation σ α β) (value value' : β → Prop)
    (h : Recomputes g path x y value) (hvalue : ∀ b, value b → value' b) :
    Recomputes g path x y value' := by
  intro context plain hpaired
  rcases h context plain hpaired with ⟨houtcome, hb, hnext⟩
  exact ⟨houtcome, fun b hok => hvalue b (hb b hok), hnext⟩

/-- Both work with the measurement on the path, and take it off again. -/
theorem within (m : CompositeMeasurement) (x y : Evaluation σ α β) (value : β → Prop)
    (h : m.id ∉ path.map (·.id) → Recomputes g (path ++ [m]) x y value) :
    Recomputes g path (Evaluation.within m x) (Evaluation.within m y) value := by
  intro context plain hpaired
  rw [run_within, run_within, hpaired.path_eq, hpaired.follows.path_eq]
  by_cases hmem : m.id ∈ path.map (·.id)
  · have hclosed := (Meets.any_entry path m.id).mpr hmem
    rw [if_pos hclosed, if_pos hclosed]
    exact ⟨rfl, (fun b hok => by cases hok), hpaired⟩
  · have hopen := mt (Meets.any_entry path m.id).mp hmem
    rw [if_neg hopen, if_neg hopen]
    have hentries : path.map CompositeMeasurement.entry ++ [m.entry] =
        (path ++ [m]).map CompositeMeasurement.entry := by
      rw [List.map_append, List.map_singleton]
    rcases h hmem { context with path := path.map CompositeMeasurement.entry ++ [m.entry] }
      { plain with path := path.map CompositeMeasurement.entry ++ [m.entry] }
      ⟨⟨hentries, hpaired.follows.means⟩, hentries, hpaired.store_eq⟩ with
      ⟨houtcome, hvalue, hnext⟩
    refine ⟨houtcome, hvalue, ⟨?_, hnext.follows.means⟩, ?_, hnext.store_eq⟩
    · rw [leave, hnext.follows.path_eq, ← hentries, List.dropLast_concat]
    · rw [leave, hnext.path_eq, ← hentries, List.dropLast_concat]

/-- A mean is remembered, or it is found and remembered from then on. -/
theorem remembered (hids : g.DistinctIds) (m : Measurement α) (hm : m ∈ g.measurements)
    (x y : Evaluation σ α (Option (Quantity α))) (h : Recomputes g path x y (g.HasMean m))
    (hanew : ∀ v, g.HasMean m v → ∀ plain : Context σ α,
      plain.path = path.map CompositeMeasurement.entry → y.run plain = (.ok v, plain)) :
    Recomputes g path (Evaluation.remembered m.id x) y (g.HasMean m) := by
  intro context plain hpaired
  rw [run_remembered]
  cases hlookup : context.means.lookup m.id with
  | some v =>
      have hmean : g.HasMean m v := hpaired.follows.means m.id v hlookup m hm rfl
      rw [hanew v hmean plain hpaired.path_eq]
      exact ⟨rfl, fun w hok => Except.ok.inj hok ▸ hmean, hpaired⟩
  | none =>
      -- Nothing is remembered of a failure, only a mean that has been found.
      rcases h context plain hpaired with ⟨houtcome, hvalue, hnext⟩
      generalize x.run context = ending at houtcome hvalue hnext ⊢
      generalize y.run plain = ending' at houtcome hnext ⊢
      rcases ending with ⟨e | v, next⟩
      · exact ⟨houtcome, (fun b hok => by cases hok), hnext⟩
      · refine ⟨houtcome, hvalue, ⟨hnext.follows.path_eq, ?_⟩, hnext.path_eq, hnext.store_eq⟩
        intro id w hlookup' other hother hid
        rw [List.lookup_cons] at hlookup'
        by_cases hsame : id = m.id
        · -- No other measurement has the identifier.
          rw [hsame, beq_self_eq_true, Option.some.injEq] at hlookup'
          rw [hids.eq_of_id g other m hother hm (hid.trans hsame), ← hlookup']
          exact hvalue v rfl
        · rw [beq_false_of_ne hsame] at hlookup'
          exact hnext.follows.means id w hlookup' other hother hid

/-- What binding the means of dependencies leads to: one is missing, or all are found. -/
def Found (g : Graph α) (dependencies : List (Measurement α)) : Option (Bindings α) → Prop
  | none => ∃ (found : List (Measurement α × Quantity α)) (dependency : Measurement α)
      (rest : List (Measurement α)), dependencies = found.map Prod.fst ++ dependency :: rest ∧
        (∀ entry ∈ found, g.HasMean entry.1 (some entry.2)) ∧ g.HasMean dependency none
  | some bound => ∃ found : List (Measurement α × Quantity α),
      dependencies = found.map Prod.fst ∧
        (∀ entry ∈ found, g.HasMean entry.1 (some entry.2)) ∧ bound = g.constants.overlaid found

/-- Means are bound one after the other. Those in front of a dependency are found when it
    is its turn. -/
theorem bindMeans (meanOf meanOf' : Measurement α → Evaluation σ α (Option (Quantity α)))
    (dependencies : List (Measurement α))
    (h : ∀ (found : List (Measurement α × Quantity α)) (dependency : Measurement α)
      (rest : List (Measurement α)), dependencies = found.map Prod.fst ++ dependency :: rest →
      (∀ entry ∈ found, g.HasMean entry.1 (some entry.2)) →
        Recomputes g path (meanOf dependency) (meanOf' dependency) (g.HasMean dependency)) :
    ∀ (found : List (Measurement α × Quantity α)) (rest : List (Measurement α)),
      dependencies = found.map Prod.fst ++ rest →
      (∀ entry ∈ found, g.HasMean entry.1 (some entry.2)) →
        Recomputes g path (Evaluation.bindMeans meanOf rest (g.constants.overlaid found))
          (Evaluation.bindMeans meanOf' rest (g.constants.overlaid found))
          (Found g dependencies) := by
  intro found rest
  induction rest generalizing found with
  | nil =>
      intro hdependencies hfound
      rw [List.append_nil] at hdependencies
      exact Recomputes.pure _ _ ⟨found, hdependencies, hfound, rfl⟩
  | cons dependency rest ih =>
      intro hdependencies hfound
      rw [bindMeans_cons, bindMeans_cons]
      refine Recomputes.bind _ _ _ _ _ _ (h found dependency rest hdependencies hfound) ?_
      intro mean hmean
      cases mean with
      | none =>
          exact Recomputes.pure _ _ ⟨found, dependency, rest, hdependencies, hfound, hmean⟩
      | some q =>
          simp only
          rw [← Bindings.overlaid_concat]
          refine ih (found ++ [(dependency, q)]) ?_ ?_
          · rw [hdependencies, List.map_append, List.append_assoc]
            rfl
          · intro entry hentry
            rcases List.mem_append.mp hentry with hentry | hentry
            · exact hfound entry hentry
            · rw [List.mem_singleton.mp hentry]
              exact hmean

section Terms

variable [DerivativeStore σ α]

/-- Both ask one store, and both put back what it becomes. -/
theorem derivative (tree : Expr α) (symbol : String) :
    Recomputes (σ := σ) g path (Evaluation.derivative tree symbol)
      (Evaluation.derivative tree symbol) (fun _ => True) := by
  intro context plain hpaired
  have hanswer : DerivativeStore.derivative context.store tree symbol =
      DerivativeStore.derivative plain.store tree symbol := by rw [hpaired.store_eq]
  refine ⟨?_, fun _ _ => trivial, ⟨hpaired.follows.path_eq, hpaired.follows.means⟩,
    hpaired.path_eq, congrArg Prod.snd hanswer.symm⟩
  exact congrArg Except.ok (congrArg Prod.fst hanswer)

/-- Where a total is missing, the variance of a dependency is. -/
theorem addTerms (tree : Expr α) (bound : Bindings α)
    (varianceOf varianceOf' : Measurement α → Evaluation σ α (Option (Quantity α)))
    (missing : Measurement α → Prop) (dependencies : List (Measurement α))
    (h : ∀ dependency ∈ dependencies, Recomputes g path (varianceOf dependency)
      (varianceOf' dependency) (fun v => v = none → missing dependency)) :
    ∀ total, Recomputes g path (Evaluation.addTerms tree bound varianceOf dependencies total)
      (Evaluation.addTerms tree bound varianceOf' dependencies total)
      (fun v => v = none → ∃ dependency ∈ dependencies, missing dependency) := by
  induction dependencies with
  | nil => exact fun total => Recomputes.pure _ _ (fun hnone => by cases hnone)
  | cons dependency rest ih =>
      intro total
      have hrest : ∀ total, Recomputes g path (Evaluation.addTerms tree bound varianceOf rest total)
          (Evaluation.addTerms tree bound varianceOf' rest total)
          (fun v => v = none → ∃ other ∈ dependency :: rest, missing other) := by
        intro total
        have hothers : ∀ other ∈ rest, _ := fun other hother => h other (List.mem_cons_of_mem _ hother)
        refine (ih hothers total).weaken _ _ _ _ fun v hv hnone => ?_
        rcases hv hnone with ⟨other, hother, hmissing⟩
        exact ⟨other, List.mem_cons_of_mem _ hother, hmissing⟩
      rw [Evaluation.addTerms, Evaluation.addTerms]
      cases dependency.symbol? with
      | none => exact hrest total
      | some symbol =>
          refine Recomputes.bind _ _ _ _ _ _ (h dependency List.mem_cons_self) ?_
          intro variance? hmissing
          cases variance? with
          | none =>
              exact Recomputes.pure _ _ fun _ => ⟨dependency, List.mem_cons_self, hmissing rfl⟩
          | some variance =>
              simp only
              split
              · exact hrest total
              · refine Recomputes.bind _ _ _ _ (fun _ => True) _ ?_ fun contribution _ => ?_
                · refine Recomputes.bind _ _ _ _ _ _ (Recomputes.derivative tree symbol)
                    fun found _ => ?_
                  refine Recomputes.bind _ _ _ _ (fun _ => True) _
                    (Recomputes.ofExcept _ _ fun _ _ => trivial) fun slope _ => ?_
                  exact Recomputes.bind _ _ _ _ (fun _ => True) _
                    (Recomputes.ofExcept _ _ fun _ _ => trivial) fun square _ =>
                      Recomputes.ofExcept _ _ fun _ _ => trivial
                · exact Recomputes.bind _ _ _ _ (fun _ => True) _
                    (Recomputes.ofExcept _ _ fun _ _ => trivial) fun total _ => hrest total

end Terms

end Recomputes

/-- Without a variance a direct measurement has no samples, and so no mean. -/
theorem directMean_of_directVariance (m : DirectMeasurement α) (types : UncertaintyTypes)
    (h : directVariance m types = .ok none) : directMean m = .ok none := by
  rw [directVariance, Outcome.bind_eq_ok] at h
  rcases h with ⟨unit, -, h⟩
  cases hcontributions : directContributions m types with
  | some sum =>
      rw [hcontributions] at h
      rcases (Outcome.bind_eq_ok _ _ _).mp h with ⟨square, -, hsome⟩
      cases hsome
  | none =>
      have hvariance : m.typeAVariance = none := by
        rw [directContributions] at hcontributions
        by_cases htypes : types.typeA = true
        · rw [if_pos htypes] at hcontributions
          cases hvariance : m.typeAVariance with
          | none => rfl
          | some v => rw [hvariance] at hcontributions; cases hcontributions
        · rw [if_neg htypes] at hcontributions
          cases hcontributions
      have hsamples := (Statistics.varianceOfMean_eq_none_iff m.values).mp hvariance
      have hmean : m.meanValue = none := (Statistics.mean_eq_none_iff m.values).mpr hsamples
      rw [directMean, hmean]

section Recursions

variable (g : Graph α) (hids : g.DistinctIds) (start : Measurement α)

include hids

/-- The dependencies of a measurement that has been entered are pursued. -/
theorem bindings_recomputes (path : List CompositeMeasurement) (m : CompositeMeasurement)
    (hpursuit : g.Pursuit start path (.composite m)) (hnew : m.id ∉ path.map (·.id))
    (meanOf meanOf' : Measurement α → Evaluation σ α (Option (Quantity α)))
    (h : ∀ dependency, g.Pursuit start (path ++ [m]) dependency →
      Recomputes g (path ++ [m]) (meanOf dependency) (meanOf' dependency) (g.HasMean dependency)) :
    Recomputes g (path ++ [m]) (bindings g meanOf m) (bindings g meanOf' m)
      (fun bound? => ∃ dependencies, g.dependencies m = .ok dependencies ∧
        Recomputes.Found g dependencies bound?) := by
  refine Recomputes.bind _ _ _ _ (fun dependencies => g.dependencies m = .ok dependencies) _
    (Recomputes.ofExcept _ _ fun _ h => h) fun dependencies hdependencies => ?_
  refine (Recomputes.bindMeans meanOf meanOf' dependencies ?_ [] dependencies rfl
    (fun _ hmem => absurd hmem List.not_mem_nil)).weaken _ _ _ _
      fun bound? hfound => ⟨dependencies, hdependencies, hfound⟩
  intro found dependency rest hall hfound
  exact h dependency (hpursuit.dependency g hids start path m found dependency rest hnew
    (hall ▸ hdependencies) hfound)

/-- The mean of a measurement that has been entered, if the ones of the dependencies that
    it gets to are what they are without a memory. -/
theorem compositeMean_recomputes (path : List CompositeMeasurement) (m : CompositeMeasurement)
    (hpursuit : g.Pursuit start path (.composite m)) (hnew : m.id ∉ path.map (·.id))
    (meanOf meanOf' : Measurement α → Evaluation σ α (Option (Quantity α)))
    (h : ∀ dependency, g.Pursuit start (path ++ [m]) dependency →
      Recomputes g (path ++ [m]) (meanOf dependency) (meanOf' dependency) (g.HasMean dependency)) :
    Recomputes g (path ++ [m]) (compositeMean g meanOf m) (compositeMean g meanOf' m)
      (g.HasMean (.composite m)) := by
  refine Recomputes.bind _ _ _ _ (fun tree => m.tree = .ok tree) _
    (Recomputes.ofExcept _ _ fun _ h => h) fun tree htree => ?_
  refine Recomputes.bind _ _ _ _ _ _
    (bindings_recomputes g hids start path m hpursuit hnew meanOf meanOf' h) ?_
  rintro (_ | bound) ⟨dependencies, hdependencies, hfound⟩
  · rcases hfound with ⟨found, dependency, rest, rfl, hsome, hnone⟩
    exact Recomputes.pure _ _
      (.missing m tree found dependency rest htree hdependencies hsome hnone)
  · rcases hfound with ⟨found, rfl, hsome, rfl⟩
    refine Recomputes.bind _ _ _ _
      (fun q => (Expr.ofDecimals tree).evaluate (g.constants.overlaid found) = .ok q) _
      (Recomputes.ofExcept _ _ fun q hq => (Outcome.mapError_eq_ok _ _ _).mp hq) ?_
    intro q hq
    exact Recomputes.pure _ _ (.present m tree found q htree hdependencies hsome hq)

/-- A measurement that is pursued may have its mean remembered. -/
theorem remembered_recomputes (fuel : Nat) (path : List CompositeMeasurement) (m : Measurement α)
    (hpursuit : g.Pursuit start path m) (hfuel : g.depth start ≤ path.length + fuel)
    (x : Evaluation σ α (Option (Quantity α)))
    (h : Recomputes g path x (meanAnew g fuel m) (g.HasMean m)) :
    Recomputes g path (remembered m.id x) (meanAnew g fuel m) (g.HasMean m) :=
  Recomputes.remembered hids m hpursuit.mem x _ h fun v hmean plain =>
    run_meanAnew_of_hasMean g hids start m v hmean path fuel plain hpursuit hfuel

/-- Means are what they are without a memory. -/
theorem mean_recomputes (fuel : Nat) :
    ∀ path m, g.Pursuit start path m → g.depth start ≤ path.length + fuel →
      Recomputes (σ := σ) g path (mean g fuel m) (meanAnew g fuel m) (g.HasMean m) := by
  have hdirect : ∀ path m, Recomputes (σ := σ) g path (ofExcept (directMean m))
      (ofExcept (directMean m)) (g.HasMean (.direct m)) :=
    fun path m => Recomputes.ofExcept _ _ fun v hv => .direct m v hv
  induction fuel with
  | zero =>
      intro path m hpursuit hfuel
      cases m with
      | direct m =>
          exact remembered_recomputes g hids start 0 path _ hpursuit hfuel _ (hdirect path m)
      | composite m =>
          exact remembered_recomputes g hids start 0 path _ hpursuit hfuel _ (Recomputes.cycle m _)
  | succ fuel ih =>
      intro path m hpursuit hfuel
      cases m with
      | direct m =>
          exact remembered_recomputes g hids start (fuel + 1) path _ hpursuit hfuel _
            (hdirect path m)
      | composite m =>
          have hlength : g.depth start ≤ (path ++ [m]).length + fuel :=
            le_length_concat _ fuel path m hfuel
          refine remembered_recomputes g hids start (fuel + 1) path _ hpursuit hfuel _ ?_
          refine Recomputes.within m _ _ _ fun hnew => ?_
          exact compositeMean_recomputes g hids start path m hpursuit hnew _ _
            fun dependency hdep => ih (path ++ [m]) dependency hdep hlength

variable [DerivativeStore σ α]

/-- The variance of a measurement that has been entered. It is missing only with the mean:
    once all means are there, no dependency is without a variance. -/
theorem compositeVariance_recomputes (path : List CompositeMeasurement) (m : CompositeMeasurement)
    (hpursuit : g.Pursuit start path (.composite m)) (hnew : m.id ∉ path.map (·.id))
    (meanOf meanOf' varianceOf varianceOf' : Measurement α → Evaluation σ α (Option (Quantity α)))
    (hmean : ∀ dependency, g.Pursuit start (path ++ [m]) dependency →
      Recomputes g (path ++ [m]) (meanOf dependency) (meanOf' dependency) (g.HasMean dependency))
    (hvariance : ∀ dependency, g.Pursuit start (path ++ [m]) dependency →
      Recomputes g (path ++ [m]) (varianceOf dependency) (varianceOf' dependency)
        (fun v => v = none → g.HasMean dependency none)) :
    Recomputes g (path ++ [m]) (compositeVariance g meanOf varianceOf m)
      (compositeVariance g meanOf' varianceOf' m)
      (fun v => v = none → g.HasMean (.composite m) none) := by
  refine Recomputes.bind _ _ _ _ (fun tree => m.tree = .ok tree) _
    (Recomputes.ofExcept _ _ fun _ h => h) fun tree htree => ?_
  refine Recomputes.bind _ _ _ _ _ _
    (bindings_recomputes g hids start path m hpursuit hnew meanOf meanOf' hmean) ?_
  rintro (_ | bound) ⟨dependencies, hdependencies, hfound⟩
  · rcases hfound with ⟨found, dependency, rest, rfl, hsome, hnone⟩
    exact Recomputes.pure _ _ fun _ =>
      .missing m tree found dependency rest htree hdependencies hsome hnone
  · rcases hfound with ⟨found, rfl, hsome, rfl⟩
    refine Recomputes.bind _ _ _ _ (fun _ => True) _
      (Recomputes.ofExcept _ _ fun _ _ => trivial) fun mean _ => ?_
    refine Recomputes.bind _ _ _ _ (fun _ => True) _
      (Recomputes.ofExcept _ _ fun _ _ => trivial) fun unit _ => ?_
    refine Recomputes.bind _ _ _ _ (fun again => g.dependencies m = .ok again) _
      (Recomputes.ofExcept _ _ fun _ h => h) fun again hagain => ?_
    -- The dependencies are the same once more, and all of them have means.
    obtain rfl : again = found.map Prod.fst := Except.ok.inj (hagain.symm.trans hdependencies)
    have hall : g.dependencies m = .ok (found.map Prod.fst ++ []) := by
      rw [List.append_nil, hdependencies]
    have hentry : ∀ dependency ∈ found.map Prod.fst, ∃ q, g.HasMean dependency (some q) ∧
        g.Pursuit start (path ++ [m]) dependency := by
      intro dependency hmem
      rcases List.mem_map.mp hmem with ⟨entry, hentry, rfl⟩
      exact ⟨entry.2, hsome entry hentry,
        hpursuit.found g hids start path m found [] hnew hall hsome entry hentry⟩
    refine (Recomputes.addTerms _ _ _ _ (fun dependency => g.HasMean dependency none) _
      (fun dependency hmem => ?_) _).weaken _ _ _ _ fun v hv hnone => ?_
    · rcases hentry dependency hmem with ⟨q, -, hdep⟩
      exact hvariance dependency hdep
    · rcases hv hnone with ⟨dependency, hmem, hmissing⟩
      rcases hentry dependency hmem with ⟨q, hq, -⟩
      cases hmissing.unique g _ _ _ hq

/-- Variances are what they are without a memory. Where a variance is missing, the mean
    is. -/
theorem combinedVariance_recomputes (types : UncertaintyTypes) (fuel : Nat) :
    ∀ path m, g.Pursuit start path m → g.depth start ≤ path.length + fuel →
      Recomputes (σ := σ) g path (combinedVariance g types fuel m)
        (combinedVarianceAnew g types fuel m) (fun v => v = none → g.HasMean m none) := by
  have hdirect : ∀ path m, Recomputes (σ := σ) g path (ofExcept (directVariance m types))
      (ofExcept (directVariance m types)) (fun v => v = none → g.HasMean (.direct m) none) :=
    fun path m => Recomputes.ofExcept _ _ fun v hv hnone =>
      .direct m none (directMean_of_directVariance m types (hnone ▸ hv))
  induction fuel with
  | zero =>
      intro path m _ _
      cases m with
      | direct m => exact hdirect path m
      | composite m => exact Recomputes.cycle m _
  | succ fuel ih =>
      intro path m hpursuit hfuel
      cases m with
      | direct m => exact hdirect path m
      | composite m =>
          have hlength : g.depth start ≤ (path ++ [m]).length + fuel :=
            le_length_concat _ fuel path m hfuel
          refine Recomputes.within m _ _ _ fun hnew => ?_
          exact compositeVariance_recomputes g hids start path m hpursuit hnew _ _ _ _
            (fun dependency hdep => mean_recomputes g hids start fuel _ dependency hdep hlength)
            (fun dependency hdep => ih (path ++ [m]) dependency hdep hlength)

end Recursions

end Evaluation

end Metrology
