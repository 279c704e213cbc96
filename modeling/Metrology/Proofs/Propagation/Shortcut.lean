import Metrology.Proofs.Propagation.Cycle
import Metrology.Proofs.Propagation.Transparency
import Metrology.Proofs.Propagation.Variance
import Metrology.Proofs.Scalar.Real

/-!
# Passing over variances of zero

A dependency whose variance is zero is passed over before its derivative is even looked up.
Here is the recursion that makes every term instead. On the real numbers such a term is zero,
in the unit of the total or in another one of its dimension, so adding it changes nothing:
what the recursion without the shortcut finds, the evaluation finds as well.

It does not work the other way round. A term that is made can fail, because its derivative
has no value, leaves the range of powers, or has lost its dimension when it was simplified.
Then the shortcut finds a variance where there is a failure without it.

## Main definitions

* `Evaluation.addEveryTerm`, `Evaluation.everyVariance`: The recursion without the shortcut.
* `Propagator.everyVariance`: Its answer.
* `Evaluation.Extends`: A computation that ends with a value wherever another one does.

## Theorems

* `Evaluation.Extends.bind`, `Evaluation.Extends.within`: Sequences and measurements.
* `Evaluation.combinedVariance_extends`: The evaluation extends the other recursion.
* `Propagator.combinedVariance_of_everyVariance`: A variance without the shortcut is the
  variance.
-/

namespace Metrology

namespace Evaluation

section Definitions

variable {σ α : Type} [Scalar α] [DerivativeStore σ α]

/-- Adds the contributions of all dependencies to a total, also those of dependencies
    without variance. -/
def addEveryTerm (tree : Expr α) (bound : Bindings α)
    (varianceOf : Measurement α → Evaluation σ α (Option (Quantity α))) :
    List (Measurement α) → Quantity α → Evaluation σ α (Option (Quantity α))
  | [], total => return some total
  | dependency :: rest, total => do
    match dependency.symbol? with
    | none => addEveryTerm tree bound varianceOf rest total
    | some symbol =>
      match ← varianceOf dependency with
      | none => return none
      | some variance =>
        let contribution ← term tree bound symbol variance
        addEveryTerm tree bound varianceOf rest (← ofUnit (total.add contribution))

/-- The variance of a composite measurement with all contributions. -/
def compositeEveryVariance (g : Graph α)
    (meanOf varianceOf : Measurement α → Evaluation σ α (Option (Quantity α)))
    (m : CompositeMeasurement) : Evaluation σ α (Option (Quantity α)) := do
  let tree : Expr α := .ofDecimals (← ofExcept m.tree)
  match ← bindings g meanOf m with
  | none => return none
  | some bound =>
    let mean ← ofEval (tree.evaluate bound)
    let unit ← ofUnit (mean.unit.powInt 2)
    let dependencies ← ofExcept (g.dependencies m)
    addEveryTerm tree bound varianceOf dependencies (.inUnit Arithmetic.zero unit)

/-- The variance of a measurement with all contributions on the way. -/
def everyVariance (g : Graph α) (types : UncertaintyTypes) :
    (fuel : Nat) → Measurement α → Evaluation σ α (Option (Quantity α))
  | _, .direct m => ofExcept (directVariance m types)
  | 0, .composite m => cycle m
  | fuel + 1, .composite m =>
    within m (compositeEveryVariance g (mean g fuel) (everyVariance g types fuel) m)

end Definitions

section Extends

variable {σ α β γ : Type}

/-- What the second computation ends with, if that is a value, the first one ends with too. -/
def Extends (x y : Evaluation σ α β) : Prop :=
  ∀ context b last, y.run context = (.ok b, last) → x.run context = (.ok b, last)

namespace Extends

theorem refl (x : Evaluation σ α β) : Extends x x := fun _ _ _ h => h

theorem bind (x y : Evaluation σ α β) (f f' : β → Evaluation σ α γ) (hxy : Extends x y)
    (hf : ∀ b, Extends (f b) (f' b)) : Extends (x >>= f) (y >>= f') := by
  intro context c last h
  rw [Outcome.run_bind_eq_ok] at h ⊢
  rcases h with ⟨b, next, hb, hc⟩
  exact ⟨b, next, hxy context b next hb, hf b next c last hc⟩

theorem within (m : CompositeMeasurement) (x y : Evaluation σ α β) (hxy : Extends x y) :
    Extends (within m x) (within m y) := by
  intro context b last h
  rw [run_within] at h ⊢
  split
  · next hclosed =>
    rw [if_pos hclosed] at h
    cases h
  · next hopen =>
    rw [if_neg hopen, Prod.mk.injEq] at h
    rw [hxy { context with path := context.path ++ [m.entry] } b _ (Prod.ext h.1 rfl), Prod.mk.injEq]
    exact ⟨rfl, h.2⟩

end Extends

end Extends

/-- The contribution of a dependency without variance is nothing. -/
theorem addContribution_of_isZero (tree : Expr ℝ) (bound : Bindings ℝ) (symbol : String)
    (v total next : Quantity ℝ) (hzero : v.isZero = true)
    (h : addContribution tree bound symbol v total = .ok next) : next = total := by
  rw [addContribution_eq_ok] at h
  rcases h with ⟨slope, square, product, -, -, hproduct, hnext⟩
  rw [Quantity.mul_eq_ok] at hproduct
  rw [Quantity.add_eq_ok] at hnext
  have hvalue : product.value = 0 := by
    rw [hproduct.1, (RealScalar.isZero_iff v.value).mp hzero, mul_zero]
  rw [hnext.2, hvalue, add_zero]

/-- Where all terms can be added, passing over some of them adds up to the same. -/
theorem addTerms_extends (tree : Expr ℝ) (bound : Bindings ℝ)
    (varianceOf everyVarianceOf : Measurement ℝ → Evaluation (NoMemory ℝ) ℝ (Option (Quantity ℝ)))
    (h : ∀ m, Extends (varianceOf m) (everyVarianceOf m)) (dependencies : List (Measurement ℝ)) :
    ∀ total, Extends (addTerms tree bound varianceOf dependencies total)
      (addEveryTerm tree bound everyVarianceOf dependencies total) := by
  induction dependencies with
  | nil => exact fun total => Extends.refl _
  | cons dependency rest ih =>
      intro total
      rw [addTerms, addEveryTerm]
      cases dependency.symbol? with
      | none => exact ih total
      | some symbol =>
          refine Extends.bind _ _ _ _ (h dependency) fun variance? => ?_
          cases variance? with
          | none => exact Extends.refl _
          | some v =>
              intro context r last hevery
              -- The derivative is not remembered, so the term is an outcome and no step.
              simp only at hevery ⊢
              rw [← bind_assoc, addTerm_noMemory, run_ofExcept_bind_eq_ok] at hevery
              rcases hevery with ⟨next, hnext, hrest⟩
              split
              · next hzero =>
                rw [addContribution_of_isZero tree bound symbol v total next hzero hnext] at hrest
                exact ih total context r last hrest
              · rw [← bind_assoc, addTerm_noMemory, run_ofExcept_bind_eq_ok]
                exact ⟨next, hnext, ih next context r last hrest⟩

theorem compositeVariance_extends (g : Graph ℝ)
    (meanOf varianceOf everyVarianceOf :
      Measurement ℝ → Evaluation (NoMemory ℝ) ℝ (Option (Quantity ℝ)))
    (h : ∀ m, Extends (varianceOf m) (everyVarianceOf m)) (m : CompositeMeasurement) :
    Extends (compositeVariance g meanOf varianceOf m)
      (compositeEveryVariance g meanOf everyVarianceOf m) := by
  refine Extends.bind _ _ _ _ (Extends.refl _) fun tree =>
    Extends.bind _ _ _ _ (Extends.refl _) fun bound? => ?_
  cases bound? with
  | none => exact Extends.refl _
  | some bound =>
      exact Extends.bind _ _ _ _ (Extends.refl _) fun mean =>
        Extends.bind _ _ _ _ (Extends.refl _) fun unit =>
        Extends.bind _ _ _ _ (Extends.refl _) fun dependencies =>
          addTerms_extends _ bound varianceOf everyVarianceOf h dependencies _

/-- The evaluation ends with what the recursion without the shortcut ends with. -/
theorem combinedVariance_extends (g : Graph ℝ) (types : UncertaintyTypes) (fuel : ℕ) :
    ∀ m, Extends (combinedVariance (σ := NoMemory ℝ) g types fuel m)
      (everyVariance g types fuel m) := by
  induction fuel with
  | zero =>
      intro m
      cases m with
      | direct m => exact Extends.refl _
      | composite m => exact Extends.refl _
  | succ fuel ih =>
      intro m
      cases m with
      | direct m => exact Extends.refl _
      | composite m =>
          exact Extends.within m _ _ (compositeVariance_extends g (mean g fuel) _ _ ih m)

section NoMemory

variable {α : Type} [Scalar α]

/-- The terms are added to a zero in the squared unit of the mean. -/
theorem run_compositeEveryVariance (g : Graph α) (m : CompositeMeasurement)
    (meanOf varianceOf : Measurement α → Evaluation (NoMemory α) α (Option (Quantity α)))
    (context next : Context (NoMemory α) α) (tree : Expr Decimal) (bound : Bindings α)
    (mean : Quantity α) (unit : CompoundUnit α) (dependencies : List (Measurement α))
    (htree : m.tree (α := α) = .ok tree)
    (hbound : (bindings g meanOf m).run context = (.ok (some bound), next))
    (hmean : (Expr.ofDecimals tree).evaluate bound = .ok mean)
    (hunit : mean.unit.powInt 2 = .ok unit) (hdependencies : g.dependencies m = .ok dependencies) :
    (compositeEveryVariance g meanOf varianceOf m).run context =
      (addEveryTerm (.ofDecimals tree) bound varianceOf dependencies
        (.inUnit Arithmetic.zero unit)).run next := by
  rw [compositeEveryVariance, htree, hdependencies, Outcome.run_bind, run_ofExcept]
  simp only
  rw [Outcome.run_bind, hbound]
  simp only
  rw [hmean, Outcome.run_bind, ofEval, Outcome.mapError_ok, run_ofExcept]
  simp only
  rw [hunit, ofUnit, Outcome.mapError_ok]
  rfl

/-- A contribution is added, whatever the variance is, and the others follow. -/
theorem run_addEveryTerm_cons (tree : Expr α) (bound : Bindings α)
    (varianceOf : Measurement α → Evaluation (NoMemory α) α (Option (Quantity α)))
    (dependency : Measurement α) (rest : List (Measurement α)) (symbol : String)
    (v total next : Quantity α) (context after : Context (NoMemory α) α)
    (hsymbol : dependency.symbol? = some symbol)
    (hvariance : (varianceOf dependency).run context = (.ok (some v), after))
    (hnext : addContribution tree bound symbol v total = .ok next) :
    (addEveryTerm tree bound varianceOf (dependency :: rest) total).run context =
      (addEveryTerm tree bound varianceOf rest next).run after := by
  have hterm := addTerm_noMemory tree bound symbol v total
  rw [hnext] at hterm
  rw [addEveryTerm, hsymbol, Outcome.run_bind, hvariance]
  simp only
  rw [← bind_assoc, hterm]
  rfl

/-- A contribution that cannot be added ends the sum, whatever the variance is. -/
theorem run_addEveryTerm_cons_error (tree : Expr α) (bound : Bindings α)
    (varianceOf : Measurement α → Evaluation (NoMemory α) α (Option (Quantity α)))
    (dependency : Measurement α) (rest : List (Measurement α)) (symbol : String)
    (v total : Quantity α) (context after : Context (NoMemory α) α) (e : PropagationError α)
    (hsymbol : dependency.symbol? = some symbol)
    (hvariance : (varianceOf dependency).run context = (.ok (some v), after))
    (he : addContribution tree bound symbol v total = .error e) :
    (addEveryTerm tree bound varianceOf (dependency :: rest) total).run context =
      (.error e, after) := by
  have hterm := addTerm_noMemory tree bound symbol v total
  rw [he] at hterm
  rw [addEveryTerm, hsymbol, Outcome.run_bind, hvariance]
  simp only
  rw [← bind_assoc, hterm]
  rfl

end NoMemory

end Evaluation

namespace Propagator

/-- The variance of a measurement without the shortcut and without a memory. -/
def everyVariance {α : Type} [Scalar α] (constants : Bindings α) (m : Measurement α)
    (all : List (Measurement α)) (types : UncertaintyTypes) :
    Except (PropagationError α) (Option (Quantity α)) :=
  let g : Graph α := ⟨all, constants⟩
  ((Evaluation.everyVariance g types (g.depth m) m).run (.fresh (NoMemory.mk (α := α)))).1

theorem everyVariance_composite {α : Type} [Scalar α] (constants : Bindings α)
    (g : Graph α) (hconstants : constants = g.constants) (m : CompositeMeasurement)
    (types : UncertaintyTypes) (fuel : ℕ) (hdepth : g.depth (.composite m) = fuel + 1) :
    everyVariance constants (.composite m) g.measurements types =
      ((Evaluation.compositeEveryVariance g (Evaluation.mean g fuel)
        (Evaluation.everyVariance g types fuel) m).run
          (Evaluation.inside m (⟨⟩ : NoMemory α))).1 := by
  rw [everyVariance, hconstants, hdepth, Evaluation.everyVariance, Evaluation.fst_within_fresh]

variable {σ : Type} [DerivativeStore σ ℝ]

/-- What is found without the shortcut is the variance, or the want of one. -/
theorem combinedVariance_of_everyVariance (p : Propagator σ ℝ) (all : List (Measurement ℝ))
    (hids : (all.map Measurement.id).Nodup) (m : Measurement ℝ) (types : UncertaintyTypes)
    (hstore : DerivativeStore.Answers ((p.graph all).Asks m) p.store) (r : Option (Quantity ℝ))
    (h : everyVariance p.constants m all types = .ok r) :
    ((Propagator.combinedVariance m all types).run p).1 = .ok r := by
  rw [combinedVariance_noMemory p all hids m types hstore, Propagator.combinedVariance, run_ask]
  exact congrArg Prod.fst (Evaluation.combinedVariance_extends (p.graph all) types _ m _ r _
    (Prod.ext h rfl))

end Propagator

end Metrology
