import Metrology.Proofs.Propagation.Store
import Metrology.Proofs.Quantity.Operations
import Metrology.Proofs.Unit.Derived

/-!
# Units of means and variances

Which units the results of a measurement graph have. Formulas put units together
by the operations on units only, so a mean has a derived unit when the constants
have. A variance has the square of the unit of its mean: the sum of the
contributions is expressed in the unit of its first term, and that term is a
zero in the square of the mean's unit. Hence an uncertainty has the very unit of
the mean.

## Main definitions

* `Bindings.Derived`: Everything bound has a derived unit.
* `Evaluation.unitAccount`: Derived units as an account of means.

## Theorems

* `Expr.evaluate_derived`: Formulas make derived units from derived units.
* `Settings.constants_derived`: The constants of a document have derived units.
* `Evaluation.mean_derived`: Means have derived units.
* `Evaluation.directVariance_unit`, `Evaluation.compositeVariance_unit`,
  `Evaluation.combinedVariance_unit`: Variances have squared units.
* `Propagator.standardDeviation_unit`: Standard deviations have roots of units.
* `Propagator.uncertainty_unit`: Uncertainties have the units of the means.
-/

namespace Metrology

section Formulas

variable {α : Type}

variable [Scalar α]

/-- Everything bound has a derived unit. -/
def Bindings.Derived (bindings : Bindings α) : Prop :=
  ∀ name q, bindings name = some q → q.unit.Derived

theorem CompoundUnit.none_derived : (CompoundUnit.none : CompoundUnit α).Derived :=
  .read "" .none rfl

namespace Expr

theorem powReal_derived (p q result : Quantity α) (hp : p.unit.Derived)
    (h : p.powReal q = .ok result) : result.unit.Derived := by
  rw [Quantity.powReal_eq_ok] at h
  rcases h with ⟨e, -, -, hunit⟩
  exact .powReal p.unit result.unit e hp hunit

theorem sqrt_derived (q result : Quantity α) (hq : q.unit.Derived) (h : q.sqrt = .ok result) :
    result.unit.Derived := by
  rw [Quantity.sqrt_eq_ok] at h
  exact .powReal q.unit result.unit _ hq h.2

theorem applyBinary_derived (op : BinaryOp) (p q result : Quantity α) (hp : p.unit.Derived)
    (hq : q.unit.Derived) (h : applyBinary op p q = .ok result) : result.unit.Derived := by
  -- Sums keep the unit of the first operand; only the others make a new one.
  cases op with
  | add =>
      rw [applyBinary, liftUnit_eq_ok, Quantity.add_eq_ok] at h
      exact h.2 ▸ hp
  | sub =>
      rw [applyBinary, liftUnit_eq_ok, Quantity.sub_eq_ok] at h
      exact h.2 ▸ hp
  | mul =>
      rw [applyBinary, liftUnit_eq_ok, Quantity.mul_eq_ok] at h
      exact .mul p.unit q.unit result.unit hp hq h.2
  | div =>
      rw [applyBinary, applyQuotient_eq_ok, Quantity.div_eq_ok] at h
      exact .div p.unit q.unit result.unit hp hq h.2.2
  | pow =>
      rw [applyBinary, applyPower_eq_ok] at h
      exact powReal_derived p q result hp h.1

theorem applyFunction_derived (function : String) (q result : Quantity α) (hq : q.unit.Derived)
    (h : applyFunction function q = .ok result) : result.unit.Derived := by
  -- A root, an absolute value, or a function of plain numbers.
  rw [applyFunction_eq_ok] at h
  split at h
  · exact sqrt_derived q result hq h.2
  · split at h
    · exact h ▸ hq
    · rcases h with ⟨-, y, -, -, rfl⟩
      exact CompoundUnit.none_derived

/-- Formulas make derived units from derived units. -/
theorem evaluate_derived (bindings : Bindings α) (hbindings : bindings.Derived) (tree : Expr α) :
    ∀ q, tree.evaluate bindings = .ok q → q.unit.Derived := by
  induction tree with
  | number value =>
      intro q h
      rw [evaluate, Except.ok.injEq] at h
      exact h ▸ CompoundUnit.none_derived
  | symbol name =>
      intro q h
      rw [evaluate, lookup] at h
      cases hbound : bindings name with
      | some p =>
          simp only [hbound, Except.ok.injEq] at h
          exact h ▸ hbindings name p hbound
      | none =>
          cases hconstant : Constant.ofName? name with
          | some constant =>
              simp only [hbound, hconstant, Except.ok.injEq] at h
              exact h ▸ CompoundUnit.none_derived
          | none => simp only [hbound, hconstant, reduceCtorEq] at h
  | binary op left right ihleft ihright =>
      intro q h
      rw [evaluate, Outcome.bind_eq_ok] at h
      rcases h with ⟨l, hl, h⟩
      rw [Outcome.bind_eq_ok] at h
      rcases h with ⟨r, hr, h⟩
      exact applyBinary_derived op l r q (ihleft l hl) (ihright r hr) h
  | negate operand ih =>
      intro q h
      rw [evaluate, Outcome.bind_eq_ok] at h
      rcases h with ⟨p, hp, h⟩
      rw [Outcome.pure_eq_ok] at h
      exact h ▸ ih p hp
  | call function argument ih =>
      intro q h
      rw [evaluate, Outcome.bind_eq_ok] at h
      rcases h with ⟨p, hp, h⟩
      exact applyFunction_derived function p q (ih p hp) h

end Expr

theorem Quantity.withUnit_derived (value : α) (source : String) (q : Quantity α)
    (h : withUnit value source = .ok q) : q.unit.Derived := by
  rw [withUnit, Outcome.bind_eq_ok] at h
  rcases h with ⟨unit, hunit, h⟩
  rw [Outcome.pure_eq_ok] at h
  exact h ▸ .read source unit hunit

/-- The constants that settings give have derived units. -/
theorem Settings.constants_derived (settings : Settings α) : settings.constants.Derived := by
  intro name q h
  have hderived := Quantity.withUnit_derived settings.gravity "m/s^2"
  -- The outcome is generalized so that the unit is not read by unfolding.
  unfold constants at h
  generalize Quantity.withUnit settings.gravity "m/s^2" = outcome at h hderived
  cases outcome with
  | error e => simp [Bindings.empty] at h
  | ok g =>
      simp only [Bindings.bind] at h
      split at h
      · exact hderived q (by rw [Option.some.inj h])
      · simp [Bindings.empty] at h

end Formulas

namespace Evaluation

variable {σ α β γ : Type} [Scalar α]

section Means

theorem directMean_eq_ok (m : DirectMeasurement α) (q : Quantity α)
    (h : directMean m = .ok (some q)) :
    ∃ mean, m.meanValue = some mean ∧ directUnit m = .ok q.unit ∧ q = .inUnit mean q.unit := by
  rw [directMean] at h
  cases hmean : m.meanValue with
  | none => simp only [hmean, Except.ok.injEq, reduceCtorEq] at h
  | some mean =>
      simp only [hmean] at h
      rw [Outcome.bind_eq_ok] at h
      rcases h with ⟨unit, hunit, h⟩
      rw [Outcome.pure_eq_ok, Option.some.injEq] at h
      exact ⟨mean, rfl, h ▸ hunit, by rw [← h]; rfl⟩

theorem directUnit_eq_ok (m : DirectMeasurement α) (unit : CompoundUnit α) :
    directUnit m = .ok unit ↔ CompoundUnit.read m.unit = .ok unit :=
  Outcome.mapError_eq_ok _ _ _

/-- A direct measurement fails for its unit only. -/
theorem directUnit_eq_error (m : DirectMeasurement α) (e : PropagationError α)
    (h : directUnit m = .error e) : ∃ cause, e = .invalidUnit m.unit cause := by
  rcases (Outcome.mapError_eq_error _ _ _).mp h with ⟨cause, -, hcause⟩
  exact ⟨cause, hcause.symm⟩

theorem directMean_eq_error (m : DirectMeasurement α) (e : PropagationError α)
    (h : directMean m = .error e) : ∃ cause, e = .invalidUnit m.unit cause := by
  rw [directMean] at h
  split at h
  · cases h
  · rcases (Outcome.bind_eq_error _ _ _).mp h with hunit | ⟨unit, -, hvalue⟩
    · exact directUnit_eq_error m e hunit
    · cases hvalue

/-- Means that have derived units are bound next to constants that have. -/
theorem Binds.derived (value : Measurement α → Option (Quantity α) → Prop)
    (hvalue : ∀ m q, value m (some q) → q.unit.Derived) (dependencies : List (Measurement α))
    (bound result : Bindings α) (hbound : bound.Derived)
    (h : Binds value dependencies bound result) : result.Derived := by
  induction h with
  | done bound => exact hbound
  | named dependency rest symbol q bound result _ hq _ ih =>
      refine ih ?_
      intro name other hother
      rw [Bindings.bind] at hother
      split at hother
      · rw [Option.some.injEq] at hother
        exact hother ▸ hvalue dependency q hq
      · exact hbound name other hother
  | unnamed dependency rest q bound result _ hq _ ih => exact ih hbound

/-- Derived units as an account of means. -/
def unitAccount (g : Graph α) (hconstants : g.constants.Derived) : MeanAccount g where
  reached _ _ := True
  value _ v := ∀ q, v = some q → q.unit.Derived
  failure _ _ := True
  known _ v := ∀ q, v = some q → q.unit.Derived
  limit := 0
  value_of_known _ _ _ _ h := h
  known_of_value _ _ _ _ h := h
  direct_value _ m v _ h := by
    intro q hv
    rcases directMean_eq_ok m q (hv ▸ h) with ⟨mean, -, hunit, -⟩
    exact .read m.unit q.unit ((directUnit_eq_ok m q.unit).mp hunit)
  direct_failure _ _ _ _ _ := trivial
  closes _ _ _ _ := trivial
  unresolved _ _ _ _ _ := trivial
  enters _ _ _ _ _ _ _ _ := trivial
  fails _ _ _ _ _ _ _ _ _ := trivial
  missing _ _ _ _ _ _ _ _ := fun q h => by simp at h
  evaluated _ _ tree dependencies bound q _ _ _ hbinds h := by
    intro other hother
    rw [← Option.some.inj hother]
    exact Expr.evaluate_derived bound
      (Binds.derived _ (fun _ q h => h q rfl) dependencies g.constants bound hconstants hbinds) _ q h
  unevaluated _ _ _ _ _ _ _ _ _ _ _ := trivial

/-- Means have derived units. -/
theorem mean_derived (g : Graph α) (hconstants : g.constants.Derived) (fuel : Nat)
    (m : Measurement α) (store : σ) (q : Quantity α)
    (h : ((mean g fuel m).run (.fresh store)).1 = .ok (some q)) : q.unit.Derived := by
  have hmeets := (unitAccount g hconstants).meets (σ := σ) fuel [] m trivial (Nat.zero_le _)
  exact (hmeets.outcome _ _ _ (Meets.follows_fresh store)).1 (some q) h q rfl

end Means

section Variances

/-- Where the mean of a composite measurement comes from. -/
theorem compositeMean_eq_ok (g : Graph α)
    (meanOf : Measurement α → Evaluation σ α (Option (Quantity α))) (m : CompositeMeasurement)
    (context : Context σ α) (q : Quantity α)
    (h : ((compositeMean g meanOf m).run context).1 = .ok (some q)) :
    ∃ tree bound, m.tree (α := α) = .ok tree ∧
      ((bindings g meanOf m).run context).1 = .ok (some bound) ∧
      (Expr.ofDecimals tree).evaluate bound = .ok q := by
  rw [compositeMean, fst_ofExcept_bind_eq_ok] at h
  rcases h with ⟨tree, htree, h⟩
  rw [Outcome.fst_bind_eq_ok] at h
  rcases h with ⟨bound?, next, hbound, h⟩
  cases bound? with
  | none => simp at h
  | some bound =>
      simp only [ofEval] at h
      rw [fst_ofExcept_bind_eq_ok] at h
      rcases h with ⟨mean, hmean, h⟩
      rw [run_pure, Except.ok.injEq, Option.some.injEq] at h
      rw [Outcome.mapError_eq_ok] at hmean
      exact ⟨tree, bound, htree, by rw [hbound], h ▸ hmean⟩

variable [DerivativeStore σ α]

/-- A total stays in the unit it is started in. -/
theorem addTerms_unit (tree : Expr α) (bound : Bindings α)
    (varianceOf : Measurement α → Evaluation σ α (Option (Quantity α)))
    (dependencies : List (Measurement α)) :
    ∀ total, Meets (fun _ => True) (addTerms tree bound varianceOf dependencies total)
      (fun v => ∀ variance, v = some variance → variance.unit = total.unit) (fun _ => True) := by
  induction dependencies with
  | nil =>
      intro total
      exact Meets.pure (some total) _ (fun variance h => by rw [Option.some.inj h])
  | cons dependency rest ih =>
      intro total
      rw [addTerms]
      cases dependency.symbol? with
      | none => exact ih total
      | some symbol =>
          refine Meets.bind _ _ (fun _ => True) _ (Meets.trivially _) (fun variance? _ => ?_)
          cases variance? with
          | none => exact Meets.pure none _ (fun variance h => by simp at h)
          | some variance =>
              simp only
              split
              · exact ih total
              · -- Whatever the contribution is, it is expressed in the unit of the total.
                refine Meets.bind _ _ (fun _ => True) _ (Meets.trivially _) (fun contribution _ => ?_)
                refine Meets.bind _ _ (fun sum => sum.unit = total.unit) _
                  (Meets.ofExcept _ _ ?_ (fun _ _ => trivial)) ?_
                · intro sum hsum
                  rw [Outcome.mapError_eq_ok, Quantity.add, Outcome.bind_eq_ok] at hsum
                  rcases hsum with ⟨-, -, hsum⟩
                  rw [Outcome.pure_eq_ok] at hsum
                  rw [← hsum]
                · intro sum hsum
                  rw [← hsum]
                  exact ih sum

/-- Where the unit of a composite measurement's variance comes from. -/
theorem compositeVariance_unit (g : Graph α)
    (meanOf varianceOf : Measurement α → Evaluation σ α (Option (Quantity α)))
    (m : CompositeMeasurement) (context : Context σ α) (variance : Quantity α)
    (h : ((compositeVariance g meanOf varianceOf m).run context).1 = .ok (some variance)) :
    ∃ tree bound mean, m.tree (α := α) = .ok tree ∧
      ((bindings g meanOf m).run context).1 = .ok (some bound) ∧
      (Expr.ofDecimals tree).evaluate bound = .ok mean ∧
      mean.unit.powInt 2 = .ok variance.unit := by
  rw [compositeVariance, fst_ofExcept_bind_eq_ok] at h
  rcases h with ⟨tree, htree, h⟩
  rw [Outcome.fst_bind_eq_ok] at h
  rcases h with ⟨bound?, next, hbound, h⟩
  cases bound? with
  | none => simp at h
  | some bound =>
      simp only [ofEval, ofUnit] at h
      rw [fst_ofExcept_bind_eq_ok] at h
      rcases h with ⟨mean, hmean, h⟩
      rw [fst_ofExcept_bind_eq_ok] at h
      rcases h with ⟨unit, hunit, h⟩
      rw [fst_ofExcept_bind_eq_ok] at h
      rcases h with ⟨dependencies, -, h⟩
      have hterms := (addTerms_unit (Expr.ofDecimals tree) bound varianceOf dependencies
        (.inUnit Arithmetic.zero unit)).outcome _ _ next trivial
      rw [Outcome.mapError_eq_ok] at hmean hunit
      refine ⟨tree, bound, mean, htree, by rw [hbound], hmean, ?_⟩
      rw [hterms.1 (some variance) h variance rfl]
      exact hunit

omit [DerivativeStore σ α] in
/-- The variance of a direct measurement is in the square of its unit. -/
theorem directVariance_unit (m : DirectMeasurement α) (types : UncertaintyTypes)
    (q variance : Quantity α) (hmean : directMean m = .ok (some q))
    (hvariance : directVariance m types = .ok (some variance)) :
    q.unit.powInt 2 = .ok variance.unit := by
  rcases directMean_eq_ok m q hmean with ⟨-, -, hunit, -⟩
  rw [directVariance, hunit, Outcome.bind_eq_ok] at hvariance
  rcases hvariance with ⟨unit, hunit, hvariance⟩
  rw [Except.ok.injEq] at hunit
  cases hsum : directContributions m types with
  | none => simp only [hsum, Outcome.pure_eq_ok, reduceCtorEq] at hvariance
  | some sum =>
      simp only [hsum, Outcome.bind_eq_ok] at hvariance
      rcases hvariance with ⟨square, hsquare, h⟩
      rw [Outcome.pure_eq_ok, Option.some.injEq] at h
      rw [Outcome.mapError_eq_ok] at hsquare
      rw [hunit, hsquare, ← h]
      rfl

/-- A variance is in the square of the unit of the mean, whatever the two stores
    hold. -/
theorem combinedVariance_unit (g : Graph α) (types : UncertaintyTypes) (fuel : Nat)
    (m : Measurement α) (store store' : σ) (q variance : Quantity α)
    (hmean : ((mean g fuel m).run (.fresh store)).1 = .ok (some q))
    (hvariance : ((combinedVariance g types fuel m).run (.fresh store')).1 = .ok (some variance)) :
    q.unit.powInt 2 = .ok variance.unit := by
  cases m with
  | direct m =>
      have hdirect : directMean m = .ok (some q) := by
        cases fuel <;> rw [mean, fst_remembered_fresh] at hmean <;> exact hmean
      have hsquare : directVariance m types = .ok (some variance) := by
        cases fuel <;> rw [combinedVariance] at hvariance <;> exact hvariance
      exact directVariance_unit m types q variance hdirect hsquare
  | composite m =>
      cases fuel with
      | zero =>
          rw [mean, fst_remembered_fresh, run_cycle] at hmean
          simp at hmean
      | succ fuel =>
          rw [mean, fst_remembered_fresh, fst_within_fresh] at hmean
          rw [combinedVariance, fst_within_fresh] at hvariance
          rcases compositeMean_eq_ok g _ m _ q hmean with ⟨tree, bound, htree, hbound, heval⟩
          rcases compositeVariance_unit g _ _ m _ variance hvariance with
            ⟨tree', bound', mean', htree', hbound', heval', hunit⟩
          rw [htree, Except.ok.injEq] at htree'
          -- Bindings do not depend on the store, so both are made of the same means.
          have hstore := bindings_storeFree (σ := σ) g fuel m (inside m store) store'
          change ((bindings g (mean g fuel) m).run (inside m store')) = _ at hstore
          rw [hstore, hbound, Except.ok.injEq, Option.some.injEq] at hbound'
          rw [← htree', ← hbound', heval, Except.ok.injEq] at heval'
          rw [heval']
          exact hunit

end Variances

end Evaluation

namespace Propagator

open Evaluation

variable {σ α : Type}

theorem run_ask {β : Type} (all : List (Measurement α)) (question : Graph α → Evaluation σ α β)
    (p : Propagator σ α) :
    (ask all question).run p =
      (((question ⟨all, p.constants⟩).run (.fresh p.store)).1,
        { p with store := ((question ⟨all, p.constants⟩).run (.fresh p.store)).2.store }) :=
  rfl

variable [Scalar α] [DerivativeStore σ α]

/-- The variance of a composite measurement comes from its formula. -/
theorem fst_combinedVariance_composite (p : Propagator σ α) (g : Graph α)
    (hconstants : p.constants = g.constants) (m : CompositeMeasurement) (types : UncertaintyTypes)
    (fuel : ℕ) (hdepth : g.depth (.composite m) = fuel + 1) :
    ((Propagator.combinedVariance (.composite m) g.measurements types).run p).1 =
      ((compositeVariance g (Evaluation.mean g fuel) (Evaluation.combinedVariance g types fuel)
        m).run (inside m p.store)).1 := by
  rw [Propagator.combinedVariance, run_ask, hconstants]
  simp only
  rw [hdepth, Evaluation.combinedVariance, fst_within_fresh]

omit [DerivativeStore σ α] in
/-- A standard deviation is in the root of the unit of the variance. -/
theorem standardDeviation_unit (variance? : Option (Quantity α)) (root : Quantity α)
    (h : standardDeviation variance? = .ok (some root)) :
    ∃ variance, variance? = some variance ∧
      variance.unit.powReal (Arithmetic.ofDecimal ⟨5, -1⟩) = .ok root.unit := by
  cases variance? with
  | none => cases h
  | some variance =>
      rw [standardDeviation, Outcome.map_eq_ok] at h
      rcases h with ⟨found, hfound, hsome⟩
      rw [Outcome.mapError_eq_ok, Quantity.sqrt, Outcome.bind_eq_ok] at hfound
      rcases hfound with ⟨unit, hunit, hfound⟩
      rw [Outcome.pure_eq_ok] at hfound
      refine ⟨variance, rfl, ?_⟩
      rw [← Option.some.inj hsome, ← hfound]
      exact hunit

/-- An uncertainty has the unit of the mean. -/
theorem uncertainty_unit [UnitScalar α] (m : Measurement α) (all : List (Measurement α))
    (types : UncertaintyTypes) (p next last : Propagator σ α) (q uncertainty : Quantity α)
    (hconstants : p.constants.Derived)
    (hmean : (Propagator.mean m all).run p = (.ok (some q), next))
    (huncertainty : (Propagator.uncertainty m all types).run next = (.ok (some uncertainty), last)) :
    q.unit.Derived ∧ uncertainty.unit = q.unit := by
  rw [Propagator.mean, run_ask, Prod.mk.injEq] at hmean
  rcases hmean with ⟨hmean, rfl⟩
  have hderived := mean_derived _ hconstants _ m p.store q hmean
  rw [Propagator.uncertainty, Outcome.run_bind] at huncertainty
  generalize hask : (Propagator.combinedVariance (σ := σ) m all types).run _ = ending at huncertainty
  rcases ending with ⟨e | variance?, after⟩
  · cases huncertainty
  · rw [Propagator.combinedVariance, run_ask, Prod.mk.injEq] at hask
    rcases hask with ⟨hvariance, -⟩
    have hroot : standardDeviation variance? = .ok (some uncertainty) :=
      congrArg Prod.fst huncertainty
    rcases standardDeviation_unit variance? uncertainty hroot with ⟨variance, rfl, hunit⟩
    -- The root is taken of a square, so it is the unit that was squared.
    have hsquare := combinedVariance_unit _ types _ m p.store _ q variance hmean hvariance
    rw [CompoundUnit.powReal_half_powInt_two q.unit variance.unit hderived.wellFormed hsquare,
      Except.ok.injEq] at hunit
    exact ⟨hderived, hunit.symm⟩

end Propagator

end Metrology
