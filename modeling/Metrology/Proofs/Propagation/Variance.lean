import Metrology.Proofs.Propagation.Invariant
import Metrology.Proofs.Quantity.Operations

/-!
# Accounts of variances

What a variance is made of, step by step. A composite measurement adds up the
contributions of its dependencies, each the square of a partial derivative times
a variance, and passes over dependencies whose variance is zero. The total is kept
in the unit that it is started in.

An account of variances says what is claimed of the variance of every measurement
that is reached, on top of what an account of means says of the means, and why
each step passes the claim on. `VarianceAccount.meets` is the induction over the
fuel, made once for all such accounts. It is about the store that remembers
nothing, which answers with derivatives at once.

## Main definitions

* `Evaluation.contribution`, `Evaluation.addContribution`: What one dependency adds.
* `Evaluation.Adds`, `Evaluation.Summed`: The totals that the contributions lead to.
* `Evaluation.MeanAccount.Evaluated`: A formula with the means it is evaluated at.
* `Evaluation.VarianceAccount`: What is claimed of the variances in a graph.

## Theorems

* `Evaluation.run_addTerms_cons_eq_ok`, `Evaluation.run_compositeVariance_eq_ok`: What a
  variance without a failure is made of.
* `Evaluation.Meets.addTermsOf`: The rule for a sum of contributions.
* `Evaluation.VarianceAccount.meets`: Variances are as the account claims.
-/

namespace Metrology.Evaluation

variable {α : Type}

/-- Outcomes that do not depend on the context can be put in sequence first. -/
theorem ofExcept_bind {σ β γ : Type} (outcome : Except (PropagationError α) β)
    (f : β → Except (PropagationError α) γ) :
    (ofExcept outcome >>= fun b => ofExcept (f b) : Evaluation σ α γ) = ofExcept (outcome >>= f) := by
  cases outcome <;> rfl

/-- A sequence that begins with such an outcome. -/
theorem run_ofExcept_bind_eq_ok {σ β γ : Type} (outcome : Except (PropagationError α) β)
    (f : β → Evaluation σ α γ) (context last : Context σ α) (c : γ) :
    (ofExcept outcome >>= f).run context = (.ok c, last) ↔
      ∃ b, outcome = .ok b ∧ (f b).run context = (.ok c, last) := by
  rw [Outcome.run_bind_eq_ok]
  constructor
  · rintro ⟨b, next, hb, h⟩
    rw [run_ofExcept] at hb
    cases hb
    exact ⟨b, rfl, h⟩
  · rintro ⟨b, rfl, h⟩
    exact ⟨b, context, rfl, h⟩

variable [Scalar α]

/-- What one dependency contributes: the square of the partial derivative at the
    means, times the dependency's variance. -/
def contribution (tree : Expr α) (bound : Bindings α) (symbol : String) (variance : Quantity α) :
    Except (PropagationError α) (Quantity α) := do
  let slope ← ((tree.differentiate symbol).evaluate bound).mapError .ofEval
  let square ← (slope.powInt 2).mapError .unitMismatch
  (square.mul variance).mapError .unitMismatch

/-- A total with the contribution of one more dependency. -/
def addContribution (tree : Expr α) (bound : Bindings α) (symbol : String)
    (variance total : Quantity α) : Except (PropagationError α) (Quantity α) := do
  (total.add (← contribution tree bound symbol variance)).mapError .unitMismatch

/-- The total that the contributions of dependencies lead to, one after the other. -/
inductive Adds (variance : Measurement α → Option (Quantity α) → Prop) (tree : Expr α)
    (bound : Bindings α) : List (Measurement α) → Quantity α → Quantity α → Prop
  | done (total : Quantity α) : Adds variance tree bound [] total total
  | unnamed (dependency : Measurement α) (rest : List (Measurement α)) (total result : Quantity α)
      (hsymbol : dependency.symbol? = none) (hrest : Adds variance tree bound rest total result) :
      Adds variance tree bound (dependency :: rest) total result
  | passed (dependency : Measurement α) (rest : List (Measurement α)) (symbol : String)
      (v total result : Quantity α) (hsymbol : dependency.symbol? = some symbol)
      (hvariance : variance dependency (some v)) (hzero : v.isZero = true)
      (hrest : Adds variance tree bound rest total result) :
      Adds variance tree bound (dependency :: rest) total result
  | added (dependency : Measurement α) (rest : List (Measurement α)) (symbol : String)
      (v total next result : Quantity α) (hsymbol : dependency.symbol? = some symbol)
      (hvariance : variance dependency (some v)) (hnonzero : v.isZero = false)
      (hnext : addContribution tree bound symbol v total = .ok next)
      (hrest : Adds variance tree bound rest next result) :
      Adds variance tree bound (dependency :: rest) total result

theorem addContribution_eq_ok (tree : Expr α) (bound : Bindings α) (symbol : String)
    (variance total next : Quantity α) :
    addContribution tree bound symbol variance total = .ok next ↔
      ∃ slope square product, (tree.differentiate symbol).evaluate bound = .ok slope ∧
        slope.powInt 2 = .ok square ∧ square.mul variance = .ok product ∧
        total.add product = .ok next := by
  rw [addContribution, Outcome.bind_eq_ok]
  simp only [contribution, Outcome.bind_eq_ok, Outcome.mapError_eq_ok]
  constructor
  · rintro ⟨product, ⟨slope, hslope, square, hsquare, hproduct⟩, hnext⟩
    exact ⟨slope, square, product, hslope, hsquare, hproduct, hnext⟩
  · rintro ⟨slope, square, product, hslope, hsquare, hproduct, hnext⟩
    exact ⟨product, ⟨slope, hslope, square, hsquare, hproduct⟩, hnext⟩

theorem addContribution_unit (tree : Expr α) (bound : Bindings α) (symbol : String)
    (variance total next : Quantity α)
    (h : addContribution tree bound symbol variance total = .ok next) :
    next.unit = total.unit := by
  rw [addContribution_eq_ok] at h
  rcases h with ⟨-, -, product, -, -, -, hnext⟩
  rw [Quantity.add_eq_ok] at hnext
  rw [hnext.2]

/-- A total stays in its unit. -/
theorem Adds.unit_eq (variance : Measurement α → Option (Quantity α) → Prop) (tree : Expr α)
    (bound : Bindings α) (dependencies : List (Measurement α)) (total result : Quantity α)
    (h : Adds variance tree bound dependencies total result) : result.unit = total.unit := by
  induction h with
  | done total => rfl
  | unnamed _ _ _ _ _ _ ih => exact ih
  | passed _ _ _ _ _ _ _ _ _ _ ih => exact ih
  | added _ _ _ _ _ _ _ _ _ _ hnext _ ih =>
      exact ih.trans (addContribution_unit _ _ _ _ _ _ hnext)

/-- What adding up contributions ends with: a missing variance, or a total. -/
def Summed (variance : Measurement α → Option (Quantity α) → Prop) (tree : Expr α)
    (bound : Bindings α) (dependencies : List (Measurement α)) (total : Quantity α)
    (v : Option (Quantity α)) : Prop :=
  (v = none ∧ ∃ dependency ∈ dependencies, variance dependency none) ∨
    ∃ result, v = some result ∧ Adds variance tree bound dependencies total result

/-- One more dependency in front. -/
theorem Summed.cons (variance : Measurement α → Option (Quantity α) → Prop) (tree : Expr α)
    (bound : Bindings α) (dependency : Measurement α) (rest : List (Measurement α))
    (total next : Quantity α) (v : Option (Quantity α)) (h : Summed variance tree bound rest next v)
    (hadds : ∀ result, Adds variance tree bound rest next result →
      Adds variance tree bound (dependency :: rest) total result) :
    Summed variance tree bound (dependency :: rest) total v := by
  rcases h with ⟨hnone, other, hother, hmissing⟩ | ⟨result, hsome, hrest⟩
  · exact Or.inl ⟨hnone, other, List.mem_cons_of_mem _ hother, hmissing⟩
  · exact Or.inr ⟨result, hsome, hadds result hrest⟩

/-- Without a memory, adding a contribution has nothing to do with the context. -/
theorem addTerm_noMemory (tree : Expr α) (bound : Bindings α) (symbol : String)
    (variance total : Quantity α) :
    (term tree bound symbol variance >>= fun product => ofUnit (total.add product) :
      Evaluation (NoMemory α) α (Quantity α)) =
        ofExcept (addContribution tree bound symbol variance total) := by
  have hderivative : ∀ f : Expr α → Evaluation (NoMemory α) α (Quantity α),
      (derivative tree symbol >>= f) = f (tree.differentiate symbol) := fun _ => rfl
  have hterm : (term tree bound symbol variance : Evaluation (NoMemory α) α (Quantity α)) =
      ofExcept (contribution tree bound symbol variance) := by
    rw [term, hderivative, contribution]
    simp only [← ofExcept_bind]
    rfl
  rw [hterm, addContribution, ← ofExcept_bind]
  rfl

section Runs

/-- A composite measurement whose formula has a value adds up contributions. -/
theorem run_compositeVariance (g : Graph α) (m : CompositeMeasurement)
    (meanOf varianceOf : Measurement α → Evaluation (NoMemory α) α (Option (Quantity α)))
    (context next : Context (NoMemory α) α) (tree : Expr Decimal) (bound : Bindings α)
    (mean : Quantity α) (unit : CompoundUnit α) (dependencies : List (Measurement α))
    (htree : m.tree (α := α) = .ok tree)
    (hbound : (bindings g meanOf m).run context = (.ok (some bound), next))
    (hmean : (Expr.ofDecimals tree).evaluate bound = .ok mean)
    (hunit : mean.unit.powInt 2 = .ok unit) (hdependencies : g.dependencies m = .ok dependencies) :
    (compositeVariance g meanOf varianceOf m).run context =
      (addTerms (.ofDecimals tree) bound varianceOf dependencies
        (.inUnit Arithmetic.zero unit)).run next := by
  rw [compositeVariance, htree, hdependencies, Outcome.run_bind, run_ofExcept]
  simp only
  rw [Outcome.run_bind, hbound]
  simp only
  rw [hmean, Outcome.run_bind, ofEval, Outcome.mapError_ok, run_ofExcept]
  simp only
  rw [hunit, ofUnit, Outcome.mapError_ok]
  rfl

/-- A contribution is added, and the others follow. -/
theorem run_addTerms_cons (tree : Expr α) (bound : Bindings α)
    (varianceOf : Measurement α → Evaluation (NoMemory α) α (Option (Quantity α)))
    (dependency : Measurement α) (rest : List (Measurement α)) (symbol : String)
    (v total next : Quantity α) (context after : Context (NoMemory α) α)
    (hsymbol : dependency.symbol? = some symbol)
    (hvariance : (varianceOf dependency).run context = (.ok (some v), after))
    (hnonzero : v.isZero = false) (hnext : addContribution tree bound symbol v total = .ok next) :
    (addTerms tree bound varianceOf (dependency :: rest) total).run context =
      (addTerms tree bound varianceOf rest next).run after := by
  have hterm := addTerm_noMemory tree bound symbol v total
  rw [hnext] at hterm
  rw [addTerms, hsymbol, Outcome.run_bind, hvariance]
  simp only [hnonzero]
  rw [← bind_assoc, if_neg (by decide), hterm]
  rfl

/-- A contribution that cannot be added ends the sum. -/
theorem run_addTerms_cons_error (tree : Expr α) (bound : Bindings α)
    (varianceOf : Measurement α → Evaluation (NoMemory α) α (Option (Quantity α)))
    (dependency : Measurement α) (rest : List (Measurement α)) (symbol : String)
    (v total : Quantity α) (context after : Context (NoMemory α) α) (e : PropagationError α)
    (hsymbol : dependency.symbol? = some symbol)
    (hvariance : (varianceOf dependency).run context = (.ok (some v), after))
    (hnonzero : v.isZero = false) (he : addContribution tree bound symbol v total = .error e) :
    (addTerms tree bound varianceOf (dependency :: rest) total).run context =
      (.error e, after) := by
  have hterm := addTerm_noMemory tree bound symbol v total
  rw [he] at hterm
  rw [addTerms, hsymbol, Outcome.run_bind, hvariance]
  simp only [hnonzero]
  rw [← bind_assoc, if_neg (by decide), hterm]
  rfl

/-- A dependency without variance is passed over. -/
theorem run_addTerms_passed (tree : Expr α) (bound : Bindings α)
    (varianceOf : Measurement α → Evaluation (NoMemory α) α (Option (Quantity α)))
    (dependency : Measurement α) (rest : List (Measurement α)) (symbol : String)
    (v total : Quantity α) (context after : Context (NoMemory α) α)
    (hsymbol : dependency.symbol? = some symbol)
    (hvariance : (varianceOf dependency).run context = (.ok (some v), after))
    (hzero : v.isZero = true) :
    (addTerms tree bound varianceOf (dependency :: rest) total).run context =
      (addTerms tree bound varianceOf rest total).run after := by
  rw [addTerms, hsymbol, Outcome.run_bind, hvariance]
  simp only [hzero]
  rfl

/-- A dependency without a symbol is passed over unseen. -/
theorem addTerms_unnamed (tree : Expr α) (bound : Bindings α)
    (varianceOf : Measurement α → Evaluation (NoMemory α) α (Option (Quantity α)))
    (dependency : Measurement α) (rest : List (Measurement α)) (total : Quantity α)
    (hsymbol : dependency.symbol? = none) :
    addTerms tree bound varianceOf (dependency :: rest) total =
      addTerms tree bound varianceOf rest total := by
  rw [addTerms, hsymbol]

/-- What happens to a named dependency where all contributions are added up. -/
theorem run_addTerms_cons_eq_ok (tree : Expr α) (bound : Bindings α)
    (varianceOf : Measurement α → Evaluation (NoMemory α) α (Option (Quantity α)))
    (dependency : Measurement α) (rest : List (Measurement α)) (symbol : String)
    (total v : Quantity α) (context last : Context (NoMemory α) α)
    (hsymbol : dependency.symbol? = some symbol)
    (h : (addTerms tree bound varianceOf (dependency :: rest) total).run context =
      (.ok (some v), last)) :
    ∃ w after, (varianceOf dependency).run context = (.ok (some w), after) ∧
      ((w.isZero = true ∧
          (addTerms tree bound varianceOf rest total).run after = (.ok (some v), last)) ∨
        (w.isZero = false ∧ ∃ next, addContribution tree bound symbol w total = .ok next ∧
          (addTerms tree bound varianceOf rest next).run after = (.ok (some v), last))) := by
  rw [addTerms, hsymbol, Outcome.run_bind_eq_ok] at h
  rcases h with ⟨variance?, after, hvariance, h⟩
  cases variance? with
  | none => cases h
  | some w =>
      simp only at h
      refine ⟨w, after, hvariance, ?_⟩
      cases hzero : w.isZero with
      | true =>
          rw [hzero, if_pos rfl] at h
          exact Or.inl ⟨rfl, h⟩
      | false =>
          rw [hzero, if_neg Bool.false_ne_true, ← bind_assoc, addTerm_noMemory,
            run_ofExcept_bind_eq_ok] at h
          exact Or.inr ⟨rfl, h⟩

/-- What a variance of a composite measurement is found from. -/
theorem run_compositeVariance_eq_ok (g : Graph α) (m : CompositeMeasurement)
    (meanOf varianceOf : Measurement α → Evaluation (NoMemory α) α (Option (Quantity α)))
    (context last : Context (NoMemory α) α) (v : Quantity α)
    (h : (compositeVariance g meanOf varianceOf m).run context = (.ok (some v), last)) :
    ∃ tree bound next mean unit dependencies, m.tree (α := α) = .ok tree ∧
      (bindings g meanOf m).run context = (.ok (some bound), next) ∧
      (Expr.ofDecimals tree).evaluate bound = .ok mean ∧ mean.unit.powInt 2 = .ok unit ∧
      g.dependencies m = .ok dependencies ∧
      (addTerms (.ofDecimals tree) bound varianceOf dependencies
        (.inUnit Arithmetic.zero unit)).run next = (.ok (some v), last) := by
  rw [compositeVariance, run_ofExcept_bind_eq_ok] at h
  rcases h with ⟨tree, htree, h⟩
  rw [Outcome.run_bind_eq_ok] at h
  rcases h with ⟨bound?, next, hbound, h⟩
  cases bound? with
  | none => cases h
  | some bound =>
      simp only [ofEval, ofUnit, run_ofExcept_bind_eq_ok, Outcome.mapError_eq_ok] at h
      rcases h with ⟨mean, hmean, unit, hunit, dependencies, hdependencies, h⟩
      exact ⟨tree, bound, next, mean, unit, dependencies, htree, hbound, hmean, hunit,
        hdependencies, h⟩

end Runs

namespace Meets

variable {kept : Context (NoMemory α) α → Prop} {failure : PropagationError α → Prop}

/-- Contributions are added one after the other, until one is missing or fails. -/
theorem addTermsOf (tree : Expr α) (bound : Bindings α) (unit : CompoundUnit α)
    (varianceOf : Measurement α → Evaluation (NoMemory α) α (Option (Quantity α)))
    (variance : Measurement α → Option (Quantity α) → Prop) (dependencies : List (Measurement α))
    (hvariance : ∀ dependency ∈ dependencies,
      Meets kept (varianceOf dependency) (variance dependency) failure)
    (hfails : ∀ dependency ∈ dependencies, ∀ symbol v total e, dependency.symbol? = some symbol →
      variance dependency (some v) → v.isZero = false → total.unit = unit →
        addContribution tree bound symbol v total = .error e → failure e) :
    ∀ total, total.unit = unit →
      Meets kept (Evaluation.addTerms tree bound varianceOf dependencies total)
        (Summed variance tree bound dependencies total) failure := by
  induction dependencies with
  | nil => exact fun total _ => Meets.pure (some total) _ (Or.inr ⟨total, rfl, .done total⟩)
  | cons dependency rest ih =>
      intro total htotal
      have hrest := ih (fun other hother => hvariance other (List.mem_cons_of_mem _ hother))
        (fun other hother => hfails other (List.mem_cons_of_mem _ hother))
      rw [Evaluation.addTerms]
      cases hsymbol : dependency.symbol? with
      | none =>
          -- Without a symbol there is nothing to differentiate with respect to.
          refine (hrest total htotal).weaken _ _ _ _ (fun w hw => ?_) (fun _ h => h)
          exact hw.cons _ _ _ _ _ _ _ _ fun result =>
            .unnamed dependency rest total result hsymbol
      | some symbol =>
          refine Meets.bind _ _ (variance dependency) _
            (hvariance dependency List.mem_cons_self) (fun variance? hv => ?_)
          cases variance? with
          | none =>
              -- The first variance that is missing ends the sum.
              exact Meets.pure none _ (Or.inl ⟨rfl, dependency, List.mem_cons_self, hv⟩)
          | some v =>
              simp only
              split
              · next hzero =>
                refine (hrest total htotal).weaken _ _ _ _ (fun w hw => ?_) (fun _ h => h)
                exact hw.cons _ _ _ _ _ _ _ _ fun result =>
                  .passed dependency rest symbol v total result hsymbol hv hzero
              · next hnonzero =>
                have hzero := Bool.eq_false_iff.mpr hnonzero
                rw [← bind_assoc, addTerm_noMemory]
                refine Meets.bind _ _ (fun next => addContribution tree bound symbol v total =
                  .ok next) _ (Meets.ofExcept _ _ (fun _ h => h) (fun e =>
                    hfails dependency List.mem_cons_self symbol v total e hsymbol hv hzero htotal))
                  (fun next hnext => ?_)
                refine (hrest next ((addContribution_unit _ _ _ _ _ _ hnext).trans htotal)).weaken
                  _ _ _ _ (fun w hw => ?_) (fun _ h => h)
                exact hw.cons _ _ _ _ _ _ _ _ fun result =>
                  .added dependency rest symbol v total next result hsymbol hv hzero hnext

end Meets

/-- The formula of a reached measurement, with the means that an account claims of its
    dependencies, and its value at them. -/
structure MeanAccount.Evaluated {g : Graph α} (means : MeanAccount g)
    (path : List CompositeMeasurement) (m : CompositeMeasurement) (tree : Expr Decimal)
    (dependencies : List (Measurement α)) (bound : Bindings α) (mean : Quantity α) : Prop where
  reached : means.reached path (.composite m)
  tree_eq : m.tree (α := α) = .ok tree
  dependencies_eq : g.dependencies m = .ok dependencies
  binds : Binds means.value dependencies g.constants bound
  mean_eq : (Expr.ofDecimals tree).evaluate bound = .ok mean

/-- What is claimed of the variances in a graph, on top of an account of its means: of
    the variance and of the failure of each measurement that is reached. -/
structure VarianceAccount {g : Graph α} (means : MeanAccount g) (types : UncertaintyTypes) where
  variance : Measurement α → Option (Quantity α) → Prop
  failure : Measurement α → PropagationError α → Prop
  direct_variance : ∀ path m v, means.reached path (.direct m) → directVariance m types = .ok v →
    variance (.direct m) v
  direct_failure : ∀ path m e, means.reached path (.direct m) → directVariance m types = .error e →
    failure (.direct m) e
  of_mean : ∀ path m e, means.reached path (.composite m) → means.failure (.composite m) e →
    failure (.composite m) e
  fails : ∀ path m dependencies, means.reached path (.composite m) →
    g.dependencies m = .ok dependencies →
      ∀ dependency ∈ dependencies, ∀ e, failure dependency e → failure (.composite m) e
  missing_mean : ∀ path m dependencies, means.reached path (.composite m) →
    g.dependencies m = .ok dependencies →
      ∀ dependency ∈ dependencies, means.value dependency none → variance (.composite m) none
  missing : ∀ path m dependencies, means.reached path (.composite m) →
    g.dependencies m = .ok dependencies →
      ∀ dependency ∈ dependencies, variance dependency none → variance (.composite m) none
  square_fails : ∀ path m tree dependencies bound mean e,
    means.Evaluated path m tree dependencies bound mean → mean.unit.powInt 2 = .error e →
      failure (.composite m) (.unitMismatch e)
  term_fails : ∀ path m tree dependencies bound mean unit,
    means.Evaluated path m tree dependencies bound mean → mean.unit.powInt 2 = .ok unit →
      ∀ dependency ∈ dependencies, ∀ symbol v total e, dependency.symbol? = some symbol →
        variance dependency (some v) → v.isZero = false → total.unit = unit →
          addContribution (.ofDecimals tree) bound symbol v total = .error e →
            failure (.composite m) e
  summed : ∀ path m tree dependencies bound mean unit,
    means.Evaluated path m tree dependencies bound mean → mean.unit.powInt 2 = .ok unit →
      ∀ result, Adds variance (.ofDecimals tree) bound dependencies (.inUnit Arithmetic.zero unit)
        result → variance (.composite m) (some result)

namespace VarianceAccount

variable {g : Graph α} {means : MeanAccount g} {types : UncertaintyTypes}
  (account : VarianceAccount means types)

/-- The variance of a composite measurement, if those of its dependencies are as
    claimed. -/
theorem compositeVariance_meets (path : List CompositeMeasurement) (m : CompositeMeasurement)
    (meanOf varianceOf : Measurement α → Evaluation (NoMemory α) α (Option (Quantity α)))
    (hreached : means.reached path (.composite m)) (hnew : m.id ∉ path.map (·.id))
    (hmean : ∀ dependency, means.reached (path ++ [m]) dependency →
      Meets (Context.Follows means.known (path ++ [m])) (meanOf dependency)
        (means.value dependency) (means.failure dependency))
    (hvariance : ∀ dependency, means.reached (path ++ [m]) dependency →
      Meets (Context.Follows means.known (path ++ [m])) (varianceOf dependency)
        (account.variance dependency) (account.failure dependency)) :
    Meets (Context.Follows means.known (path ++ [m])) (compositeVariance g meanOf varianceOf m)
      (account.variance (.composite m)) (account.failure (.composite m)) := by
  have hofMean := fun e => account.of_mean path m e hreached
  -- Up to the value of the formula, this is the way to the mean, and fails as that does.
  refine Meets.bind _ _ (fun tree => m.tree = .ok tree) _
    (Meets.ofExcept _ _ (fun _ h => h) (fun e htree => hofMean e ?_)) (fun tree htree => ?_)
  · refine means.unresolved path m e hreached ?_
    rw [Graph.dependencies, htree]
    rfl
  refine Meets.bind _ _ (means.Bound m) _ ((means.bindings_meets path m meanOf hreached hnew
    hmean).weaken _ _ _ _ (fun _ h => h) hofMean) ?_
  rintro result? ⟨dependencies, hdependencies, ⟨rfl, d, hd, hnone⟩ | ⟨bound, rfl, hbinds⟩⟩
  · exact Meets.pure none _ (account.missing_mean path m dependencies hreached hdependencies d hd
      hnone)
  refine Meets.bind _ _ (fun q => (Expr.ofDecimals tree).evaluate bound = .ok q) _
    (Meets.ofExcept _ _ (fun q h => (Outcome.mapError_eq_ok _ _ _).mp h) (fun e h => ?_))
    (fun mean heval => ?_)
  · rcases (Outcome.mapError_eq_error _ _ _).mp h with ⟨cause, hcause, rfl⟩
    exact hofMean _ (means.unevaluated path m tree dependencies bound cause hreached htree
      hdependencies hbinds hcause)
  have hevaluated : means.Evaluated path m tree dependencies bound mean :=
    ⟨hreached, htree, hdependencies, hbinds, heval⟩
  refine Meets.bind _ _ (fun unit => mean.unit.powInt 2 = .ok unit) _
    (Meets.ofExcept _ _ (fun q h => (Outcome.mapError_eq_ok _ _ _).mp h) (fun e h => ?_))
    (fun unit hunit => ?_)
  · rcases (Outcome.mapError_eq_error _ _ _).mp h with ⟨cause, hcause, rfl⟩
    exact account.square_fails path m tree dependencies bound mean cause hevaluated hcause
  -- The dependencies are resolved a second time, for the terms.
  refine Meets.bind _ _ (fun found => g.dependencies m = .ok found) _
    (Meets.ofExcept _ _ (fun _ h => h) (fun e he => hofMean e (means.unresolved path m e hreached he)))
    (fun found hfound => ?_)
  rw [hdependencies, Except.ok.injEq] at hfound
  subst hfound
  refine (Meets.addTermsOf _ bound unit varianceOf account.variance dependencies ?_
    (account.term_fails path m tree dependencies bound mean unit hevaluated hunit)
    (.inUnit Arithmetic.zero unit) rfl).weaken _ _ _ _ ?_ (fun _ h => h)
  · intro dependency hmem
    have hdep := means.enters path m dependencies hreached hnew hdependencies dependency hmem
    exact (hvariance dependency hdep).weaken _ _ _ _ (fun _ h => h)
      (account.fails path m dependencies hreached hdependencies dependency hmem)
  · rintro v (⟨rfl, d, hd, hnone⟩ | ⟨result, rfl, hadds⟩)
    · exact account.missing path m dependencies hreached hdependencies d hd hnone
    · exact account.summed path m tree dependencies bound mean unit hevaluated hunit result hadds

/-- Variances are as the account claims, as long as the fuel reaches up to the
    limit. -/
theorem meets (fuel : Nat) :
    ∀ path m, means.reached path m → means.limit ≤ path.length + fuel →
      Meets (Context.Follows means.known path)
        (combinedVariance (σ := NoMemory α) g types fuel m) (account.variance m)
        (account.failure m) := by
  have hdirect : ∀ path m, means.reached path (.direct m) →
      Meets (Context.Follows (σ := NoMemory α) means.known path)
        (ofExcept (directVariance m types)) (account.variance (.direct m))
        (account.failure (.direct m)) := by
    intro path m hreached
    exact Meets.ofExcept _ _ (fun v => account.direct_variance path m v hreached)
      (fun e => account.direct_failure path m e hreached)
  induction fuel with
  | zero =>
      intro path m hreached hlimit
      cases m with
      | direct m => exact hdirect path m hreached
      | composite m =>
          exact Meets.cycle path m _ (account.of_mean path m _ hreached
            (means.closes path m hreached (Or.inr hlimit)))
  | succ fuel ih =>
      intro path m hreached hlimit
      cases m with
      | direct m => exact hdirect path m hreached
      | composite m =>
          refine Meets.within path m _ _ (fun hmem => account.of_mean path m _ hreached
            (means.closes path m hreached (Or.inl hmem))) (fun hnew => ?_)
          have hlength : means.limit ≤ (path ++ [m]).length + fuel :=
            le_length_concat _ fuel path m hlimit
          -- The means are asked for with the same fuel, on the same path.
          exact account.compositeVariance_meets path m _ _ hreached hnew
            (fun dependency hdep => means.meets fuel (path ++ [m]) dependency hdep hlength)
            (fun dependency hdep => ih (path ++ [m]) dependency hdep hlength)

end VarianceAccount

end Metrology.Evaluation
