import Metrology.Proofs.Expr.DerivativeDimension
import Metrology.Proofs.Propagation.Measured
import Metrology.Proofs.Propagation.Variance

/-!
# Dimensions of variances

A variance has the square of the dimension of the mean. Each of its terms should
have that dimension too: the derivative with respect to a dependency has the
dimension of the mean less that of the dependency, so its square times the variance
of the dependency has twice the dimension of the mean.

That fails in one way by the making of derivatives. A derivative that is simplified
to the literal zero is a plain number, whatever the dependency is measured in. If the
dependency does not have the dimension of the mean, the term has not the dimension of
the total, and adding it fails, although what is added is a zero. The formula
`y * (x - x)` is such a one, with the derivative zero in `x`.

Where that does not happen and numbers do not interfere, a variance only fails
because powers of units are out of range, a divisor is zero, or an argument is
outside of the domain of a function.

## Main definitions

* `PropagationError.IsTolerated`: Failures that have nothing to do with dimensions.
* `Graph.AtMeans`: A formula with the means of its dependencies.
* `Graph.Defect`: A formula whose variance may lose its dimension.
* `Graph.squaredVariances`: Dimensions of variances as an account.

## Theorems

* `Evaluation.addContribution_yields`: Terms of the right dimension can be added.
* `Propagator.combinedVariance_defect`: A variance that fails because of dimensions
  has a defect.
-/

namespace Metrology

open CompoundUnit (Measures)

variable {σ α : Type}

/-- Failures that have nothing to do with dimensions. -/
def PropagationError.IsTolerated : PropagationError α → Prop
  | .unitMismatch e => e.IsOverflow
  | .invalidExpression e => e.IsTolerated
  | .emptyFormula => False
  | .unparsableFormula _ => False
  | .undefinedMeasurement _ => False
  | .cyclicReference _ => False
  | .invalidUnit _ _ => False

theorem PropagationError.ofEval_tolerated (e : EvalError α) (h : e.IsTolerated) :
    (PropagationError.ofEval e).IsTolerated := by
  cases e with
  | undefinedSymbol name => exact h.elim
  | unit e => exact h
  | divisionByZero => exact h
  | unknownFunction name => exact h.elim
  | invalidArgument reason => exact h

variable [Scalar α]

namespace Evaluation

section Terms

variable (tree : Expr α) (bound : Bindings α) (symbol : String) (variance total : Quantity α)
  (d e : Dimension)

/-- What a slope with a dimension contributes. -/
theorem contribution_yields (hslope : (tree.differentiate symbol).HasDimension bound e)
    (hvariance : variance.unit.Measures ((2 : ℤ) • d)) :
    Outcome.Yields (fun product => product.unit.Measures ((2 : ℤ) • (e + d)))
      PropagationError.IsTolerated (contribution tree bound symbol variance) := by
  rw [smul_add]
  refine Outcome.Yields.bind _ _ _ (Outcome.Yields.mapError _ _ _ hslope
    PropagationError.ofEval_tolerated) (fun slope hslope => ?_)
  refine Outcome.Yields.bind _ _ _ (Outcome.Yields.mapError _ _ _
    (Expr.withUnit_yields _ _ _ _ (hslope.powInt 2)) (fun _ h => h)) (fun square hsquare => ?_)
  exact Outcome.Yields.mapError _ _ _
    (Expr.withUnit_yields _ _ _ _ (hsquare.mul hvariance)) (fun _ h => h)

/-- A term with the dimension of the total can be added. -/
theorem addContribution_yields (hslope : (tree.differentiate symbol).HasDimension bound (e - d))
    (hvariance : variance.unit.Measures ((2 : ℤ) • d)) (htotal : total.unit.Measures ((2 : ℤ) • e)) :
    Outcome.Yields (fun _ => True) PropagationError.IsTolerated
      (addContribution tree bound symbol variance total) := by
  have hterm := contribution_yields tree bound symbol variance d (e - d) hslope hvariance
  rw [sub_add_cancel] at hterm
  refine Outcome.Yields.bind _ _ _ hterm (fun product hproduct => ?_)
  rw [Quantity.add, Expr.checkSameDimension_ok _ _ _ htotal hproduct]
  exact True.intro

end Terms

end Evaluation

namespace Graph

/-- A formula with the means of its dependencies. -/
structure AtMeans (g : Graph α) (bound : Bindings α) (c : CompositeMeasurement)
    (tree : Expr Decimal) (means : Bindings α) : Prop where
  tree_eq : c.tree (α := α) = .ok tree
  binds : ∃ dependencies, g.dependencies c = .ok dependencies ∧
    Evaluation.Binds (g.Means bound) dependencies g.constants means

/-- What a variance may lose its dimension by, in the formula of a measurement below: a
    slope that is a bare zero, although the dependency has another dimension than the
    mean, or numbers that interfere. -/
inductive Defect (g : Graph α) (bound : Bindings α) (start : Measurement α) : Prop
  | vanishing (c : CompositeMeasurement) (tree : Expr Decimal) (means : Bindings α)
      (dependency : Measurement α) (symbol : String) (mean v : Quantity α)
      (hreaches : g.Reaches start (.composite c)) (hmeans : g.AtMeans bound c tree means)
      (href : g.References (.composite c) dependency) (hsymbol : dependency.symbol? = some symbol)
      (hmean : (Expr.ofDecimals tree).evaluate means = .ok mean) (hv : means symbol = some v)
      (hzero : ((Expr.ofDecimals tree : Expr α).differentiate symbol).isZeroLiteral = true)
      (hdiffer : mean.dimension ≠ v.dimension)
  | interfering (c : CompositeMeasurement) (tree : Expr Decimal) (means : Bindings α)
      (dependency : Measurement α) (symbol : String)
      (hreaches : g.Reaches start (.composite c)) (hmeans : g.AtMeans bound c tree means)
      (href : g.References (.composite c) dependency) (hsymbol : dependency.symbol? = some symbol)
      (hirregular : ¬ (Expr.ofDecimals tree).Regular means symbol)

section Dimensions

variable [FoldingScalar α] (g : Graph α) (hids : g.DistinctIds) (hsymbols : g.DistinctSymbols)
  (hconstants : g.constants.Derived) (start : Measurement α) (hstart : start ∈ g.measurements)
  (bound : Bindings α) (hoverlays : g.Overlays start bound) (hsettled : g.Settled start)
  (hmeasured : g.Measured start)

omit [FoldingScalar α] in
include hids hsettled hmeasured in
/-- If a measurement has a mean to be, so have those below. -/
theorem denotes_of_reaches (h : ∃ q, g.Denotes bound start q) (m : Measurement α)
    (hreaches : g.Reaches start m) : ∃ q, g.Denotes bound m q := by
  induction hreaches with
  | refl => exact h
  | @tail between last hreaches href ih =>
      cases between with
      | direct d => exact href.elim
      | composite c =>
          have hbelow := hsettled.of_reaches g hids _ _ hreaches
          rcases hbelow.resolves with ⟨dependencies, hdependencies⟩
          exact g.denotes_dependency hids start bound hmeasured c dependencies hreaches hbelow
            hdependencies ih last
            ((g.mem_dependencies_iff hids c dependencies hdependencies last).mpr href)

omit [FoldingScalar α] in
include hconstants hoverlays in
/-- An overlay binds derived units. -/
theorem Overlays.derived : bound.Derived := by
  intro name q hq
  by_cases hcarried : ∃ d, g.Reaches start (.direct d) ∧ d.name.symbol? = some name
  · rcases hcarried with ⟨d, hreaches, hsymbol⟩
    have hmean := hoverlays.measured d hreaches name hsymbol
    rw [hq] at hmean
    rcases Evaluation.directMean_eq_ok d q hmean with ⟨-, -, hunit, -⟩
    exact .read d.unit q.unit ((Evaluation.directUnit_eq_ok d q.unit).mp hunit)
  · rw [hoverlays.constant name (fun d hreaches hsymbol => hcarried ⟨d, hreaches, hsymbol⟩)] at hq
    exact hconstants name q hq

omit [FoldingScalar α] in
include hids hconstants hoverlays hsettled in
/-- What a mean should be has a derived unit. -/
theorem denotes_derived (m : Measurement α) (hreaches : g.Reaches start m) (q : Quantity α)
    (h : g.Denotes bound m q) : q.unit.Derived := by
  cases m with
  | direct d =>
      rcases Evaluation.directMean_eq_ok d q h with ⟨-, -, hunit, -⟩
      exact .read d.unit q.unit ((Evaluation.directUnit_eq_ok d q.unit).mp hunit)
  | composite c =>
      rcases (hsettled.of_reaches g hids _ _ hreaches).inlines g hids _ c rfl with ⟨inlined, hinlines⟩
      exact Expr.evaluate_derived bound (hoverlays.derived g hconstants start bound) _ q
        (h inlined hinlines)

omit [FoldingScalar α] in
include hids hsettled in
/-- There is one mean to be. -/
theorem Denotes.unique (m : Measurement α) (hreaches : g.Reaches start m) (q other : Quantity α)
    (h : g.Denotes bound m q) (hother : g.Denotes bound m other) : other = q := by
  cases m with
  | direct d => exact Option.some.inj (Except.ok.inj (hother.symm.trans h))
  | composite c =>
      rcases (hsettled.of_reaches g hids _ _ hreaches).inlines g hids _ c rfl with ⟨inlined, hinlines⟩
      exact Except.ok.inj ((hother inlined hinlines).symm.trans (h inlined hinlines))

/-- A variance with twice the dimension that the mean should have. -/
def Squared (bound : Bindings α) (m : Measurement α) (v : Option (Quantity α)) : Prop :=
  ∀ w, v = some w →
    ∃ q d, g.Denotes bound m q ∧ q.unit.Measures d ∧ w.unit.Measures ((2 : ℤ) • d)

/-- A failure that has nothing to do with dimensions, or a defect. -/
def Excused (bound : Bindings α) (m : Measurement α) (e : PropagationError α) : Prop :=
  e.IsTolerated ∨ g.Defect bound m

omit [FoldingScalar α] in
/-- A defect of a dependency is one of the measurement. -/
theorem Excused.of_dependency (c : CompositeMeasurement) (dependency : Measurement α)
    (href : g.References (.composite c) dependency) (e : PropagationError α)
    (h : g.Excused bound dependency e) : g.Excused bound (.composite c) e := by
  refine h.imp_right (fun hdefect => ?_)
  cases hdefect with
  | vanishing c' tree means other symbol mean v hreaches hmeans href' hsymbol hmean hv hzero hdiffer =>
      exact .vanishing c' tree means other symbol mean v (.head href hreaches) hmeans href' hsymbol
        hmean hv hzero hdiffer
  | interfering c' tree means other symbol hreaches hmeans href' hsymbol hirregular =>
      exact .interfering c' tree means other symbol (.head href hreaches) hmeans href' hsymbol
        hirregular

include hmeasured in
/-- The variance of a direct measurement has twice the dimension of the mean, or a power
    is out of range. -/
theorem directVariance_yields (d : DirectMeasurement α) (hreaches : g.Reaches start (.direct d))
    (types : UncertaintyTypes) :
    Outcome.Yields (g.Squared bound (.direct d)) (g.Excused bound (.direct d))
      (Evaluation.directVariance d types) := by
  rcases hmeasured d hreaches with ⟨q, hq⟩
  rcases Evaluation.directMean_eq_ok d q hq with ⟨-, -, hunit, -⟩
  have hderived : q.unit.Derived :=
    .read d.unit q.unit ((Evaluation.directUnit_eq_ok d q.unit).mp hunit)
  rcases hderived.wellFormed.measures with ⟨e, he⟩
  rw [Evaluation.directVariance, hunit]
  cases hsum : Evaluation.directContributions d types with
  | none => exact fun w hw => by cases hw
  | some sum =>
      refine Outcome.Yields.bind ((q.unit.powInt 2).mapError PropagationError.unitMismatch) _ _
        (Outcome.Yields.mapError _ _ _ (he.powInt 2) (fun _ h => Or.inl h)) (fun square hsquare => ?_)
      intro w hw
      rw [← Option.some.inj hw]
      exact ⟨q, e, hq, he, hsquare⟩

section Formulas

variable (c : CompositeMeasurement) (hreaches : g.Reaches start (.composite c))
  (tree : Expr Decimal) (htree : c.tree (α := α) = .ok tree) (dependencies : List (Measurement α))
  (hdependencies : g.dependencies c = .ok dependencies) (means : Bindings α)
  (hbinds : Evaluation.Binds (g.Means bound) dependencies g.constants means) (mean : Quantity α)
  (hmean : (Expr.ofDecimals tree).evaluate means = .ok mean)

include hids hconstants hoverlays hsettled hreaches hdependencies hbinds

omit [FoldingScalar α] in
/-- Derived units are bound in a formula. -/
theorem means_derived : means.Derived := by
  intro name v hv
  have href := g.mem_dependencies_iff hids c dependencies hdependencies
  rcases hbinds.apply _ _ _ _ name with
    ⟨dependency, hmem, -, q, ⟨r, hr, hdenotes⟩, hresult⟩ | ⟨-, hresult⟩
  · rw [hv, Option.some.injEq] at hresult
    rw [Option.some.injEq] at hr
    rw [hresult, hr]
    exact g.denotes_derived hids hconstants start bound hoverlays hsettled dependency
      (hreaches.tail ((href dependency).mp hmem)) r hdenotes
  · exact hconstants name v (hresult.symm.trans hv)

include hmean in
/-- The mean of a formula has a dimension. -/
theorem mean_measures : ∃ d, mean.unit.Measures d :=
  (Expr.evaluate_derived means (g.means_derived hids hconstants start bound hoverlays hsettled c
    hreaches dependencies hdependencies means hbinds) _ mean hmean).wellFormed.measures

include hsymbols htree hmean in
/-- A term can be added, or there is a defect. -/
theorem addContribution_excused (unit : CompoundUnit α) (hunit : mean.unit.powInt 2 = .ok unit)
    (dependency : Measurement α) (hmem : dependency ∈ dependencies) (symbol : String)
    (hsymbol : dependency.symbol? = some symbol)
    (hfixed : (Expr.ofDecimals tree : Expr α).FixedExponents symbol) (v total : Quantity α)
    (hv : g.Squared bound dependency (some v)) (htotal : total.unit = unit)
    (e : PropagationError α)
    (h : Evaluation.addContribution (.ofDecimals tree) means symbol v total = .error e) :
    g.Excused bound (.composite c) e := by
  have href := (g.mem_dependencies_iff hids c dependencies hdependencies dependency).mp hmem
  have hmeans : g.AtMeans bound c tree means := ⟨htree, dependencies, hdependencies, hbinds⟩
  by_cases hregular : (Expr.ofDecimals tree).Regular means symbol
  swap
  · -- Numbers interfere.
    exact Or.inr (.interfering c tree means dependency symbol .refl hmeans href hsymbol hregular)
  rcases g.bound_mean hids c dependencies hdependencies _ means hbinds hsymbols symbol dependency href
    hsymbol with ⟨q, ⟨r, hr, hdenotes⟩, hbound⟩
  rcases hv v rfl with ⟨r', d, hdenotes', hd, hvariance⟩
  -- The mean that the variance is squared from is the one that is bound to the symbol.
  have hsame := Denotes.unique g hids start bound hsettled dependency (hreaches.tail href) r r'
    hdenotes hdenotes'
  rw [hsame, ← Option.some.inj hr] at hd
  rcases g.mean_measures hids hconstants start bound hoverlays hsettled c hreaches tree dependencies
    hdependencies means hbinds mean hmean with ⟨f, hf⟩
  have htotal : total.unit.Measures ((2 : ℤ) • f) := by
    rw [htotal]
    exact (hf.powInt 2).value_of_ok _ _ hunit
  have hlookup : Expr.lookup means symbol = .ok q := by rw [Expr.lookup, hbound]
  have hfits := Expr.fitsDimension_differentiate (g.means_derived hids hconstants start bound hoverlays
    hsettled c hreaches dependencies hdependencies means hbinds) symbol q hlookup hd _ hfixed hregular
    mean f hmean hf
  have hyields := fun hslope => (Evaluation.addContribution_yields (.ofDecimals tree) means symbol v
    total d f hslope hvariance htotal).failure_of_error _ e h
  rcases hfits with hzero | hslope
  · by_cases hdimension : f = d
    · -- A bare zero is what the slope should be.
      refine Or.inl (hyields ?_)
      rw [hdimension, sub_self]
      exact Expr.FitsDimension.plain (Or.inl hzero)
    · -- A bare zero has lost the dimension that the total has.
      refine Or.inr (.vanishing c tree means dependency symbol mean q .refl hmeans href hsymbol hmean
        hbound hzero (fun hequal => hdimension ?_))
      exact Except.ok.inj (hf.dimension_eq.symm.trans (hequal.trans hd.dimension_eq))
  · exact Or.inl (hyields hslope)

include hsymbols hstart htree hmean in
/-- What terms are added to has twice the dimension of the mean. -/
theorem squared_composite (unit : CompoundUnit α) (hunit : mean.unit.powInt 2 = .ok unit)
    (result : Quantity α) (h : Evaluation.Adds (g.Squared bound) (.ofDecimals tree) means dependencies
      (.inUnit Arithmetic.zero unit) result) : g.Squared bound (.composite c) (some result) := by
  rcases g.mean_measures hids hconstants start bound hoverlays hsettled c hreaches tree dependencies
    hdependencies means hbinds mean hmean with ⟨d, hd⟩
  intro w hw
  rw [← Option.some.inj hw]
  refine ⟨mean, d, fun inlined hinlines => ?_, hd, ?_⟩
  · rw [g.evaluate_inlined hids hsymbols start hstart bound hoverlays c tree inlined dependencies means
      hreaches htree hdependencies hbinds hinlines]
    exact hmean
  · have hkept := h.unit_eq
    rw [hkept]
    exact (hd.powInt 2).value_of_ok _ _ hunit

end Formulas

/-- Dimensions of variances as an account. Means do not fail, since the measurement at the
    start has one. -/
def squaredVariances (types : UncertaintyTypes) (hstartMean : ∃ q, g.Denotes bound start q)
    (hfixed : ∀ c, g.Reaches start (.composite c) → ∀ tree, c.tree (α := α) = .ok tree →
      ∀ other ∈ g.measurements, ∀ symbol, other.symbol? = some symbol →
        (Expr.ofDecimals tree : Expr α).FixedExponents symbol) :
    Evaluation.VarianceAccount
      (g.inlinedMeans hids hsymbols start hstart bound hoverlays hsettled hmeasured) types where
  variance := g.Squared bound
  failure := g.Excused bound
  direct_variance _ d v h hv :=
    (g.directVariance_yields start bound hmeasured d h.walk.reaches types).value_of_ok _ _ hv
  direct_failure _ d e h he :=
    (g.directVariance_yields start bound hmeasured d h.walk.reaches types).failure_of_error _ _ he
  of_mean _ c _ h hnone := absurd
    (g.denotes_of_reaches hids start bound hsettled hmeasured hstartMean _ h.walk.reaches) hnone
  fails _ c dependencies _ hdependencies dependency hmem e h :=
    Excused.of_dependency g bound c dependency
      ((g.mem_dependencies_iff hids c dependencies hdependencies dependency).mp hmem) e h
  missing_mean _ _ _ _ _ _ _ _ := fun w hw => by cases hw
  missing _ _ _ _ _ _ _ _ := fun w hw => by cases hw
  square_fails _ c tree dependencies means mean e h he := by
    rcases g.mean_measures hids hconstants start bound hoverlays hsettled c h.reached.walk.reaches tree
      dependencies h.dependencies_eq means h.binds mean h.mean_eq with ⟨d, hd⟩
    exact Or.inl ((hd.powInt 2).failure_of_error _ _ he)
  term_fails _ c tree dependencies means mean unit h hunit dependency hmem symbol v total e hsymbol hv
      _ htotal he :=
    have hreaches := h.reached.walk.reaches
    have href := (g.mem_dependencies_iff hids c dependencies h.dependencies_eq dependency).mp hmem
    g.addContribution_excused hids hsymbols hconstants start bound hoverlays hsettled c hreaches tree
      h.tree_eq dependencies h.dependencies_eq means h.binds mean h.mean_eq unit hunit dependency hmem
      symbol hsymbol (hfixed c hreaches tree h.tree_eq dependency href.mem symbol hsymbol) v total hv
      htotal e he
  summed _ c tree dependencies means mean unit h hunit result hadds :=
    g.squared_composite hids hsymbols hconstants start hstart bound hoverlays hsettled c
      h.reached.walk.reaches tree h.tree_eq dependencies h.dependencies_eq means h.binds mean h.mean_eq
      unit hunit result hadds

end Dimensions

end Graph

namespace Propagator

open Evaluation

variable [FoldingScalar α] [DerivativeStore σ α]

/-- If a composite measurement has a mean, and no exponent varies with a measurement, then
    its variance fails only in a way that has nothing to do with dimensions, or there is
    a defect: a slope that is a bare zero where it should have a dimension, or numbers that
    interfere. -/
theorem combinedVariance_defect (p : Propagator σ α) (all : List (Measurement α))
    (hids : (all.map Measurement.id).Nodup) (hsymbols : (all.filterMap Measurement.symbol?).Nodup)
    (hconstants : p.constants.Derived) (m : CompositeMeasurement) (hm : .composite m ∈ all)
    (types : UncertaintyTypes)
    (hstore : DerivativeStore.Answers ((p.graph all).Asks (.composite m)) p.store)
    (hfixed : ∀ c, (p.graph all).Reaches (.composite m) (.composite c) →
      ∀ tree, c.tree (α := α) = .ok tree → ∀ other ∈ all, ∀ symbol, other.symbol? = some symbol →
        (Expr.ofDecimals tree : Expr α).FixedExponents symbol)
    (q : Quantity α) (hmean : ((Propagator.mean (.composite m) all).run p).1 = .ok (some q))
    (e : PropagationError α)
    (h : ((Propagator.combinedVariance (.composite m) all types).run p).1 = .error e) :
    e.IsTolerated ∨ ∃ bound, (p.graph all).Overlays (.composite m) bound ∧
      (p.graph all).Defect bound (.composite m) := by
  have hdistinct : (p.graph all).DistinctIds := hids
  have hnamed : (p.graph all).DistinctSymbols := hsymbols
  have hsettled := settled_of_mean p all hdistinct _ hm q hmean
  have hmeasured := measured_of_mean p all hdistinct _ hm q hmean
  rcases Graph.exists_overlay _ hnamed _ hm hmeasured with ⟨bound, hoverlays⟩
  have hdenotes := denotes_of_mean p all hdistinct hnamed _ hm q hmean bound hoverlays
  -- What fails without a memory is what fails.
  rw [combinedVariance_noMemory p all hids _ types hstore] at h
  have hexcused : (p.graph all).Excused bound (.composite m) e :=
    ((((p.graph all).squaredVariances hdistinct hnamed hconstants _ hm bound hoverlays hsettled
      hmeasured types ⟨q, hdenotes⟩ hfixed).meets ((p.graph all).depth (.composite m)) [] _
      (.start _ _ hm) (Nat.le_add_left _ _)).outcome _ _ _ (Meets.follows_fresh _)).2 e h
  exact hexcused.imp_right fun hdefect => ⟨bound, hoverlays, hdefect⟩

section Example

/-- A length times the difference of a time and itself. -/
def nothingTimed : CompositeMeasurement := ⟨⟨3⟩, ⟨"z"⟩, ⟨"y * (x - x)"⟩⟩

/-- A length and a time, and a mean of no length and time. -/
def nothingMeasured : List (Measurement Float) :=
  [.direct { DirectMeasurement.empty ⟨1⟩ "y" "m" with values := [2, 2.5] },
    .direct { DirectMeasurement.empty ⟨2⟩ "x" "s" with values := [3, 3.5] }, .composite nothingTimed]

/-- Whether an outcome is a failure because of different dimensions. -/
def isDimensionMismatch : Except (PropagationError Float) (Option (Quantity Float)) → Bool
  | .error (.unitMismatch (.dimensionMismatch _ _)) => true
  | _ => false

/-- There is a mean, but there is no variance: its terms have different dimensions. So
    there is a defect. -/
theorem combinedVariance_defect_nothingTimed :
    ∃ q e, ((Propagator.mean (.composite nothingTimed) nothingMeasured).run
          (⟨Bindings.empty, ⟨⟩⟩ : Propagator (NoMemory Float) Float)).1 = .ok (some q) ∧
      ((Propagator.combinedVariance (.composite nothingTimed) nothingMeasured
          { typeB := false }).run
        (⟨Bindings.empty, ⟨⟩⟩ : Propagator (NoMemory Float) Float)).1 = .error e ∧
      ¬ e.IsTolerated ∧
      ∃ bound, (⟨nothingMeasured, Bindings.empty⟩ : Graph Float).Overlays (.composite nothingTimed)
          bound ∧
        (⟨nothingMeasured, Bindings.empty⟩ : Graph Float).Defect bound (.composite nothingTimed) := by
  let p : Propagator (NoMemory Float) Float := ⟨Bindings.empty, ⟨⟩⟩
  have hids : (nothingMeasured.map Measurement.id).Nodup := by decide
  have hmem : .composite nothingTimed ∈ nothingMeasured :=
    List.mem_cons_of_mem _ (List.mem_cons_of_mem _ List.mem_cons_self)
  have hsome : (((Propagator.mean (.composite nothingTimed) nothingMeasured).run p).1.toOption.join).isSome
      = true := by decide +kernel
  have hmismatch : isDimensionMismatch ((Propagator.combinedVariance (.composite nothingTimed)
      nothingMeasured { typeB := false }).run p).1 = true := by decide +kernel
  have htree : nothingTimed.tree (α := Float) =
      .ok (.binary .mul (.symbol "y") (.binary .sub (.symbol "x") (.symbol "x"))) :=
    Outcome.eq_ok_of_toOption _ _ (by decide +kernel)
  have hmean : ∃ q, ((Propagator.mean (.composite nothingTimed) nothingMeasured).run p).1 =
      .ok (some q) := by
    rcases Option.isSome_iff_exists.mp hsome with ⟨q, hq⟩
    exact ⟨q, Outcome.eq_ok_of_toOption _ _ (Option.join_eq_some_iff.mp hq)⟩
  have hvariance : ∃ left right, ((Propagator.combinedVariance (.composite nothingTimed)
      nothingMeasured { typeB := false }).run p).1 =
        .error (.unitMismatch (.dimensionMismatch left right)) := by
    unfold isDimensionMismatch at hmismatch
    split at hmismatch
    · next h => exact ⟨_, _, h⟩
    · cases hmismatch
  have hfixed : ∀ c, (p.graph nothingMeasured).Reaches (.composite nothingTimed) (.composite c) →
      ∀ tree, c.tree (α := Float) = .ok tree → ∀ other ∈ nothingMeasured, ∀ symbol,
        other.symbol? = some symbol → (Expr.ofDecimals tree : Expr Float).FixedExponents symbol := by
    intro c hreaches tree hc _ _ symbol _ base exponent hpart
    have hc' := hreaches.mem _ _ _ hmem
    simp only [nothingMeasured, List.mem_cons, List.not_mem_nil, or_false, reduceCtorEq, false_or,
      Measurement.composite.injEq] at hc'
    rw [hc', htree, Except.ok.injEq] at hc
    simp [← hc, Expr.ofDecimals, Expr.map, Expr.parts] at hpart
  rcases hmean with ⟨q, hmean⟩
  rcases hvariance with ⟨left, right, hvariance⟩
  have htolerated : ¬ (PropagationError.unitMismatch (.dimensionMismatch left right) :
      PropagationError Float).IsTolerated := by
    rintro ⟨overflow, h⟩
    cases h
  have hdefect := combinedVariance_defect p nothingMeasured hids (by decide)
    (fun _ _ h => by cases h) nothingTimed hmem { typeB := false }
    (DerivativeStore.answers_noMemory _ _) hfixed q hmean _ hvariance
  exact ⟨q, _, hmean, hvariance, htolerated, hdefect.resolve_left htolerated⟩

end Example

end Propagator

end Metrology
