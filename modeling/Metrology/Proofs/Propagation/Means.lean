import Metrology.Proofs.Propagation.Cycle

/-!
# Means apart from the path

The evaluation of a mean carries the path that led to it and the means that it
remembers. The mean itself depends on neither: it is found from the dependencies one
after the other, until one is missing. `Graph.HasMean` says so, and knows of no path.

A measurement needs the dependencies that its evaluation gets to, which are those in
front of which all means are there. With a mean, a measurement does not need itself. So
on a path on which each measurement needs the ones that follow, a measurement with a mean
is met for the first time, and it can be entered. Evaluated anew on any such path, it has
the same mean.

## Main definitions

* `Graph.HasMean`: The mean of a measurement, or that it is missing.
* `Graph.Needs`: The evaluation of a mean gets to a dependency.
* `Graph.Pursuit`: What an evaluation knows of a path of measurements that need each
  other.
* `Evaluation.meanAnew`, `Evaluation.combinedVarianceAnew`: The recursions that remember
  no means.

## Theorems

* `Graph.HasMean.unique`: A measurement has one mean.
* `Graph.HasMean.not_needs_self`: A measurement with a mean does not need itself.
* `Graph.Pursuit.opens`: A measurement with a mean can be entered.
* `Evaluation.run_meanAnew_of_hasMean`: A mean is found anew on every path.
-/

namespace Metrology

variable {σ α : Type}

/-- Binds a value to the symbol of a measurement, if it has one. -/
def Bindings.overlay (bound : Bindings α) (m : Measurement α) (q : Quantity α) : Bindings α :=
  match m.symbol? with
  | some symbol => bound.bind symbol q
  | none => bound

/-- Binds the values that have been found of measurements, one after the other. -/
def Bindings.overlaid (bound : Bindings α) (found : List (Measurement α × Quantity α)) :
    Bindings α :=
  found.foldl (fun bound entry => bound.overlay entry.1 entry.2) bound

theorem Bindings.overlaid_concat (bound : Bindings α) (found : List (Measurement α × Quantity α))
    (m : Measurement α) (q : Quantity α) :
    bound.overlaid (found ++ [(m, q)]) = (bound.overlaid found).overlay m q := by
  simp only [overlaid, List.foldl_append, List.foldl_cons, List.foldl_nil]

namespace Graph

/-- Means that are found of the same measurements are the same, if each is the only one. -/
theorem found_unique (found : List (Measurement α × Quantity α)) :
    ∀ found' : List (Measurement α × Quantity α), found.map Prod.fst = found'.map Prod.fst →
      (∀ entry ∈ found, ∀ entry' ∈ found', entry.1 = entry'.1 → entry.2 = entry'.2) →
        found = found' := by
  induction found with
  | nil =>
      intro found' hsame _
      exact (List.map_eq_nil_iff.mp hsame.symm).symm
  | cons entry rest ih =>
      intro found' hsame hunique
      rcases List.map_eq_cons_iff.mp hsame.symm with ⟨entry', rest', rfl, hfirst, hrest⟩
      have hentry : entry = entry' :=
        Prod.ext hfirst.symm (hunique _ List.mem_cons_self _ List.mem_cons_self hfirst.symm)
      rw [hentry, ih rest' hrest.symm fun e he e' he' =>
        hunique e (List.mem_cons_of_mem _ he) e' (List.mem_cons_of_mem _ he')]

variable [Scalar α]

/-- The mean of a measurement, where there is one to be found below it or found to be
    missing. -/
inductive HasMean (g : Graph α) : Measurement α → Option (Quantity α) → Prop
  | direct (m : DirectMeasurement α) (v : Option (Quantity α))
      (h : Evaluation.directMean m = .ok v) : HasMean g (.direct m) v
  /-- The means of some dependencies are there, and the next one is missing. -/
  | missing (m : CompositeMeasurement) (tree : Expr Decimal)
      (found : List (Measurement α × Quantity α)) (dependency : Measurement α)
      (rest : List (Measurement α)) (htree : m.tree (α := α) = .ok tree)
      (hdependencies : g.dependencies m = .ok (found.map Prod.fst ++ dependency :: rest))
      (hfound : ∀ entry ∈ found, HasMean g entry.1 (some entry.2))
      (hmissing : HasMean g dependency none) : HasMean g (.composite m) none
  | present (m : CompositeMeasurement) (tree : Expr Decimal)
      (found : List (Measurement α × Quantity α)) (q : Quantity α)
      (htree : m.tree (α := α) = .ok tree)
      (hdependencies : g.dependencies m = .ok (found.map Prod.fst))
      (hfound : ∀ entry ∈ found, HasMean g entry.1 (some entry.2))
      (hvalue : (Expr.ofDecimals tree).evaluate (g.constants.overlaid found) = .ok q) :
      HasMean g (.composite m) (some q)

/-- The evaluation of a mean gets to a dependency: the ones before it have means. -/
inductive Needs (g : Graph α) : Measurement α → Measurement α → Prop
  | dependency (m : CompositeMeasurement) (found : List (Measurement α × Quantity α))
      (other : Measurement α) (rest : List (Measurement α))
      (hdependencies : g.dependencies m = .ok (found.map Prod.fst ++ other :: rest))
      (hfound : ∀ entry ∈ found, g.HasMean entry.1 (some entry.2)) : Needs g (.composite m) other

/-- A measurement has one mean. -/
theorem HasMean.unique (g : Graph α) (m : Measurement α) (v w : Option (Quantity α))
    (hv : g.HasMean m v) (hw : g.HasMean m w) : v = w := by
  induction hv generalizing w with
  | direct m v h =>
      cases hw with
      | direct m w h' => exact Except.ok.inj (h.symm.trans h')
  | missing m tree found dependency rest htree hdependencies _ _ ihFound ihMissing =>
      cases hw with
      | missing => rfl
      | present m tree' found' q _ hdependencies' hfound' _ =>
          -- The one that is missing would be among those that are found.
          exfalso
          have hall := Except.ok.inj (hdependencies'.symm.trans hdependencies)
          have hmem : dependency ∈ found'.map Prod.fst := by
            rw [hall]
            exact List.mem_append_right _ List.mem_cons_self
          rcases List.mem_map.mp hmem with ⟨entry, hentry, rfl⟩
          cases ihMissing _ (hfound' entry hentry)
  | present m tree found q htree hdependencies hfound hvalue ihFound =>
      cases hw with
      | missing m tree' found' dependency rest _ hdependencies' _ hmissing =>
          exfalso
          have hall := Except.ok.inj (hdependencies.symm.trans hdependencies')
          have hmem : dependency ∈ found.map Prod.fst := by
            rw [hall]
            exact List.mem_append_right _ List.mem_cons_self
          rcases List.mem_map.mp hmem with ⟨entry, hentry, rfl⟩
          cases ihFound entry hentry _ hmissing
      | present m tree' found' q' htree' hdependencies' hfound' hvalue' =>
          -- The same dependencies, each with the one mean it has.
          have hall := Except.ok.inj (hdependencies.symm.trans hdependencies')
          have hsame : found = found' := by
            refine found_unique found found' hall fun entry hentry entry' hentry' hfirst => ?_
            exact Option.some.inj (ihFound entry hentry _ (hfirst ▸ hfound' entry' hentry'))
          subst hsame
          rw [htree] at htree'
          rw [Except.ok.inj htree'] at hvalue
          rw [hvalue] at hvalue'
          rw [Except.ok.inj hvalue']

/-- A dependency that the evaluation gets to has been found, or is the one that is
    missing. -/
theorem needs_cases (g : Graph α) (m : CompositeMeasurement)
    (found : List (Measurement α × Quantity α)) (dependency : Measurement α)
    (rest : List (Measurement α))
    (hdependencies : g.dependencies m = .ok (found.map Prod.fst ++ dependency :: rest))
    (hmissing : g.HasMean dependency none) (other : Measurement α)
    (h : g.Needs (.composite m) other) : other ∈ found.map Prod.fst ∨ other = dependency := by
  cases h with
  | dependency m found' other rest' hdependencies' hfound' =>
      have hall := Except.ok.inj (hdependencies.symm.trans hdependencies')
      rcases List.append_eq_append_iff.mp hall with ⟨between, hbefore, hbehind⟩ |
        ⟨between, hbefore, hbehind⟩
      · rcases between with _ | ⟨first, between⟩
        · exact Or.inr (List.cons.inj hbehind).1.symm
        · -- The missing one would stand in front, where means are found.
          exfalso
          have hmem : dependency ∈ found'.map Prod.fst := by
            rw [hbefore, (List.cons.inj hbehind).1]
            exact List.mem_append_right _ List.mem_cons_self
          rcases List.mem_map.mp hmem with ⟨entry, hentry, rfl⟩
          cases (hfound' entry hentry).unique g _ _ _ hmissing
      · rcases between with _ | ⟨first, between⟩
        · exact Or.inr (List.cons.inj hbehind).1
        · refine Or.inl ?_
          rw [hbefore, (List.cons.inj hbehind).1]
          exact List.mem_append_right _ List.mem_cons_self

/-- Needing comes to an end where a mean is found. -/
theorem HasMean.acc (g : Graph α) (m : Measurement α) (v : Option (Quantity α))
    (h : g.HasMean m v) : Acc (fun other m => g.Needs m other) m := by
  induction h with
  | direct m v h =>
      refine ⟨_, fun other hneeds => ?_⟩
      cases hneeds
  | missing m tree found dependency rest _ hdependencies _ hmissing ihFound ihMissing =>
      refine ⟨_, fun other hneeds => ?_⟩
      rcases needs_cases g m found dependency rest hdependencies hmissing other hneeds with
        hmem | rfl
      · rcases List.mem_map.mp hmem with ⟨entry, hentry, rfl⟩
        exact ihFound entry hentry
      · exact ihMissing
  | present m tree found q _ hdependencies _ _ ihFound =>
      refine ⟨_, fun other hneeds => ?_⟩
      cases hneeds with
      | dependency m found' other rest' hdependencies' _ =>
          have hall := Except.ok.inj (hdependencies.symm.trans hdependencies')
          have hmem : other ∈ found.map Prod.fst := by
            rw [hall]
            exact List.mem_append_right _ List.mem_cons_self
          rcases List.mem_map.mp hmem with ⟨entry, hentry, rfl⟩
          exact ihFound entry hentry

/-- A measurement with a mean does not need itself. -/
theorem HasMean.not_needs_self (g : Graph α) (m : Measurement α) (v : Option (Quantity α))
    (h : g.HasMean m v) : ¬ Relation.TransGen g.Needs m m := by
  have hacc := h.acc
  clear h
  induction hacc with
  | intro m _ ih =>
      intro hcycle
      rcases Relation.TransGen.head'_iff.mp hcycle with ⟨next, hneeds, hback⟩
      -- What it needs on the cycle would need itself as well.
      exact ih next hneeds (Relation.TransGen.tail' hback hneeds)

/-- What an evaluation knows of the path it is on, if it got to a measurement from each
    one that is on the path by way of what that needs. -/
structure Pursuit (g : Graph α) (start : Measurement α) (path : List CompositeMeasurement)
    (m : Measurement α) : Prop extends g.Approach start path m where
  needs : ∀ c ∈ path, Relation.TransGen g.Needs (.composite c) m

theorem Pursuit.start (g : Graph α) (m : Measurement α) (hm : m ∈ g.measurements) :
    g.Pursuit m [] m :=
  ⟨.start g m hm, fun _ h => absurd h List.not_mem_nil⟩

/-- Getting to a dependency. -/
theorem Pursuit.dependency (g : Graph α) (hids : g.DistinctIds) (start : Measurement α)
    (path : List CompositeMeasurement) (m : CompositeMeasurement)
    (found : List (Measurement α × Quantity α)) (other : Measurement α)
    (rest : List (Measurement α)) (h : g.Pursuit start path (.composite m))
    (hnew : m.id ∉ path.map (·.id))
    (hdependencies : g.dependencies m = .ok (found.map Prod.fst ++ other :: rest))
    (hfound : ∀ entry ∈ found, g.HasMean entry.1 (some entry.2)) :
    g.Pursuit start (path ++ [m]) other where
  toApproach := h.toApproach.dependency g hids start path m _ hnew hdependencies other
    (List.mem_append_right _ List.mem_cons_self)
  needs := by
    intro c hc
    have hneeds : g.Needs (.composite m) other :=
      .dependency m found other rest hdependencies hfound
    rcases List.mem_append.mp hc with hc | hc
    · exact .tail (h.needs c hc) hneeds
    · rw [List.mem_singleton.mp hc]
      exact .single hneeds

/-- Getting to a dependency of which the mean is found. -/
theorem Pursuit.found (g : Graph α) (hids : g.DistinctIds) (start : Measurement α)
    (path : List CompositeMeasurement) (m : CompositeMeasurement)
    (found : List (Measurement α × Quantity α)) (rest : List (Measurement α))
    (h : g.Pursuit start path (.composite m)) (hnew : m.id ∉ path.map (·.id))
    (hdependencies : g.dependencies m = .ok (found.map Prod.fst ++ rest))
    (hfound : ∀ entry ∈ found, g.HasMean entry.1 (some entry.2)) :
    ∀ entry ∈ found, g.Pursuit start (path ++ [m]) entry.1 := by
  intro entry hentry
  rcases List.append_of_mem hentry with ⟨before, after, rfl⟩
  refine h.dependency g hids start path m before entry.1 (after.map Prod.fst ++ rest) hnew ?_
    fun other hother => hfound other (List.mem_append_left _ hother)
  rw [hdependencies]
  simp only [List.map_append, List.map_cons, List.append_assoc, List.cons_append]

/-- A measurement with a mean can be entered, and the fuel is not used up. -/
theorem Pursuit.opens (g : Graph α) (hids : g.DistinctIds) (start : Measurement α)
    (path : List CompositeMeasurement) (m : CompositeMeasurement) (v : Option (Quantity α))
    (h : g.Pursuit start path (.composite m)) (hmean : g.HasMean (.composite m) v) :
    m.id ∉ path.map (·.id) ∧ path.length < g.depth start := by
  rw [← Nat.not_le, ← not_or]
  intro hclosed
  -- Otherwise it would be on the path, and each measurement there needs it.
  exact hmean.not_needs_self g _ v (h.needs m (h.mem_path g hids start path m hclosed))

end Graph

namespace Evaluation

theorem bindMeans_cons (meanOf : Measurement α → Evaluation σ α (Option (Quantity α)))
    (dependency : Measurement α) (rest : List (Measurement α)) (bound : Bindings α) :
    bindMeans meanOf (dependency :: rest) bound = (do
      match ← meanOf dependency with
      | none => return none
      | some q => bindMeans meanOf rest (bound.overlay dependency q)) := by
  rw [bindMeans]
  congr 1
  funext mean
  cases mean with
  | none => rfl
  | some q =>
      simp only [Bindings.overlay]
      cases dependency.symbol? <;> rfl

/-- Means that are found are bound. -/
theorem run_bindMeans_found (meanOf : Measurement α → Evaluation σ α (Option (Quantity α)))
    (found : List (Measurement α × Quantity α)) (rest : List (Measurement α))
    (context : Context σ α)
    (hfound : ∀ entry ∈ found, (meanOf entry.1).run context = (.ok (some entry.2), context)) :
    ∀ bound, (bindMeans meanOf (found.map Prod.fst ++ rest) bound).run context =
      (bindMeans meanOf rest (bound.overlaid found)).run context := by
  induction found with
  | nil => exact fun bound => rfl
  | cons entry others ih =>
      intro bound
      rw [List.map_cons, List.cons_append, bindMeans_cons, Outcome.run_bind,
        hfound entry List.mem_cons_self]
      exact ih (fun e he => hfound e (List.mem_cons_of_mem _ he)) _

theorem run_bindMeans_missing (meanOf : Measurement α → Evaluation σ α (Option (Quantity α)))
    (dependency : Measurement α) (rest : List (Measurement α)) (bound : Bindings α)
    (context : Context σ α) (hmissing : (meanOf dependency).run context = (.ok none, context)) :
    (bindMeans meanOf (dependency :: rest) bound).run context = (.ok none, context) := by
  rw [bindMeans_cons, Outcome.run_bind, hmissing]
  rfl

variable [Scalar α]

/-- The formula of one direct measurement is evaluated at its mean, which is remembered. -/
theorem run_bindings_direct (g : Graph α) (m : CompositeMeasurement) (d : DirectMeasurement α)
    (symbol : String) (q : Quantity α) (hdependencies : g.dependencies m = .ok [.direct d])
    (hsymbol : (Measurement.direct d).symbol? = some symbol) (hmean : directMean d = .ok (some q))
    (fuel : ℕ) (context : Context σ α)
    (hmeans : context.means.lookup d.id = none ∨ context.means.lookup d.id = some (some q)) :
    ∃ means, (bindings g (mean g fuel) m).run context =
        (.ok (some (g.constants.bind symbol q)), { context with means := means }) ∧
      means.lookup d.id = some (some q) ∧
      ∀ id, id ≠ d.id → means.lookup id = context.means.lookup id := by
  have hdirect : mean g fuel (.direct d) =
      (remembered d.id (ofExcept (directMean d)) : Evaluation σ α _) := by
    cases fuel <;> rfl
  have hrun : (bindings g (mean g fuel) m).run context =
      (bindMeans (mean g fuel) [.direct d] g.constants).run context := by
    rw [bindings, hdependencies, ofExcept_ok, pure_bind]
  rw [hrun, bindMeans_cons, Outcome.run_bind, hdirect, run_remembered]
  rcases hmeans with hnone | hknown
  · refine ⟨(d.id, some q) :: context.means, ?_, ?_, fun id hid => ?_⟩
    · rw [hnone, hmean]
      simp [bindMeans, Bindings.overlay, hsymbol]
    · rw [List.lookup_cons, beq_self_eq_true]
    · rw [List.lookup_cons, beq_eq_false_iff_ne.mpr hid]
  · refine ⟨context.means, ?_, hknown, fun _ _ => rfl⟩
    rw [hknown]
    simp [bindMeans, Bindings.overlay, hsymbol]

/-- The mean of a measurement, evaluated anew whenever it is asked for. -/
def meanAnew (g : Graph α) :
    (fuel : Nat) → Measurement α → Evaluation σ α (Option (Quantity α))
  | _, .direct m => ofExcept (directMean m)
  | 0, .composite m => cycle m
  | fuel + 1, .composite m => within m (compositeMean g (meanAnew g fuel) m)

/-- The variance of a measurement, with every mean evaluated anew. -/
def combinedVarianceAnew [DerivativeStore σ α] (g : Graph α) (types : UncertaintyTypes) :
    (fuel : Nat) → Measurement α → Evaluation σ α (Option (Quantity α))
  | _, .direct m => ofExcept (directVariance m types)
  | 0, .composite m => cycle m
  | fuel + 1, .composite m =>
    within m (compositeVariance g (meanAnew g fuel) (combinedVarianceAnew g types fuel) m)

/-- A measurement with a mean is entered, and its mean is then found among its
    dependencies. -/
theorem run_meanAnew_composite (g : Graph α) (hids : g.DistinctIds) (start : Measurement α)
    (path : List CompositeMeasurement) (m : CompositeMeasurement) (v : Option (Quantity α))
    (fuel : Nat) (context : Context σ α) (hpursuit : g.Pursuit start path (.composite m))
    (hmean : g.HasMean (.composite m) v) (hfuel : g.depth start ≤ path.length + fuel)
    (hpath : context.path = path.map CompositeMeasurement.entry)
    (hinner : ∀ (fuel : Nat) (inner : Context σ α), m.id ∉ path.map (·.id) →
      g.depth start ≤ (path ++ [m]).length + fuel →
        inner.path = (path ++ [m]).map CompositeMeasurement.entry →
          (compositeMean g (meanAnew g fuel) m).run inner = (.ok v, inner)) :
    (meanAnew g fuel (.composite m)).run context = (.ok v, context) := by
  rcases hpursuit.opens g hids start path m v hmean with ⟨hnew, hopen⟩
  rcases fuel with _ | fuel
  · omega
  have hlength : g.depth start ≤ (path ++ [m]).length + fuel :=
    le_length_concat _ fuel path m hfuel
  have hentries : context.path ++ [m.entry] = (path ++ [m]).map CompositeMeasurement.entry := by
    rw [hpath, List.map_append, List.map_singleton]
  have hclosed : ¬ context.path.any (·.1 = m.id) = true := by
    rw [hpath]
    exact mt (Meets.any_entry path m.id).mp hnew
  rw [meanAnew, run_within, if_neg hclosed, hinner fuel _ hnew hlength hentries]
  simp only [leave, List.dropLast_concat]

/-- On a path on which a measurement with a mean is pursued, the mean is found anew. -/
theorem run_meanAnew_of_hasMean (g : Graph α) (hids : g.DistinctIds) (start m : Measurement α)
    (v : Option (Quantity α)) (h : g.HasMean m v) :
    ∀ (path : List CompositeMeasurement) (fuel : Nat) (context : Context σ α),
      g.Pursuit start path m → g.depth start ≤ path.length + fuel →
        context.path = path.map CompositeMeasurement.entry →
          (meanAnew g fuel m).run context = (.ok v, context) := by
  induction h with
  | direct m v h =>
      intro path fuel context _ _ _
      rw [meanAnew, run_ofExcept, h]
  | missing m tree found dependency rest htree hdependencies hfound hmissing ihFound ihMissing =>
      intro path fuel context hpursuit hfuel hpath
      refine run_meanAnew_composite g hids start path m none fuel context hpursuit
        (.missing m tree found dependency rest htree hdependencies hfound hmissing) hfuel hpath ?_
      intro fuel inner hnew hfuel hinner
      have hsome : ∀ entry ∈ found,
          (meanAnew g fuel entry.1).run inner = (.ok (some entry.2), inner) :=
        fun entry hentry => ihFound entry hentry _ fuel inner
          (hpursuit.found g hids start path m found _ hnew hdependencies hfound entry hentry)
          hfuel hinner
      have hnone : (meanAnew g fuel dependency).run inner = (.ok none, inner) :=
        ihMissing _ fuel inner
          (hpursuit.dependency g hids start path m found dependency rest hnew hdependencies hfound)
          hfuel hinner
      rw [compositeMean, Outcome.run_bind, run_ofExcept, htree]
      simp only
      rw [Outcome.run_bind, bindings, Outcome.run_bind, run_ofExcept, hdependencies]
      simp only
      rw [run_bindMeans_found _ found _ inner hsome, run_bindMeans_missing _ _ _ _ _ hnone]
      rfl
  | present m tree found q htree hdependencies hfound hvalue ihFound =>
      intro path fuel context hpursuit hfuel hpath
      refine run_meanAnew_composite g hids start path m (some q) fuel context hpursuit
        (.present m tree found q htree hdependencies hfound hvalue) hfuel hpath ?_
      intro fuel inner hnew hfuel hinner
      -- All dependencies are found, and none is left behind them.
      have hall : g.dependencies m = .ok (found.map Prod.fst ++ []) := by
        rw [List.append_nil, hdependencies]
      have hsome : ∀ entry ∈ found,
          (meanAnew g fuel entry.1).run inner = (.ok (some entry.2), inner) :=
        fun entry hentry => ihFound entry hentry _ fuel inner
          (hpursuit.found g hids start path m found [] hnew hall hfound entry hentry)
          hfuel hinner
      have hbound := run_bindMeans_found (meanAnew g fuel) found [] inner hsome g.constants
      rw [List.append_nil] at hbound
      rw [compositeMean, Outcome.run_bind, run_ofExcept, htree]
      simp only
      rw [Outcome.run_bind, bindings, Outcome.run_bind, run_ofExcept, hdependencies]
      simp only
      rw [hbound, bindMeans, run_pure]
      simp only
      rw [Outcome.run_bind, ofEval, run_ofExcept, hvalue]
      rfl

end Evaluation

end Metrology
