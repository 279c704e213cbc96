import Metrology.Proofs.Propagation.Below
import Metrology.Proofs.Propagation.Measured
import Metrology.Proofs.Propagation.Variance

/-!
# The linearized law of propagation

On the real numbers, the variance of a composite measurement is the sum of the
variances of the direct measurements below it, each times the square of the
partial derivative of the inlined formula at the means. The evaluation knows
nothing of the inlined formula: every composite measurement adds up the variances
of its dependencies, composite ones included, with the derivatives of its own
formula. The two agree by the chain rule, if no measurement is reached in two
ways. Otherwise the contributions of one measurement would have to be added up
before they are squared.

A dependency whose variance is zero is passed over. Its share of the law is a
square times that variance, so nothing is lost.

## Main definitions

* `Graph.sensitivity`: The partial derivative of an inlined formula.
* `Graph.linearized`: The sum that the law speaks of.
* `Graph.Linear`, `Graph.linearVariances`: The law as an account of variances.

## Theorems

* `Evaluation.Adds.value_eq`: What the contributions add up to.
* `Graph.value_of_bound`: What a name is bound to inside of a measurement.
* `Graph.sensitivity_chain`: The chain rule along the graph.
* `Graph.share_eq`: What is below a dependency contributes what the dependency does.
* `Propagator.linear_of_combinedVariance`: Variances obey the law.
-/

namespace Metrology

/-- Nothing, in whatever unit, is zero. -/
theorem Quantity.value_inUnit_zero (unit : CompoundUnit ℝ) :
    (Quantity.inUnit Arithmetic.zero unit : Quantity ℝ).value = 0 := by
  rw [Quantity.inUnit, CompoundUnit.toBase, RealScalar.zero_eq, zero_mul]

namespace Evaluation

/-- Contributions that are squares of derivatives times variances add up to the sum of
    these. What is passed over would have contributed nothing. -/
theorem Adds.value_eq (variance : Measurement ℝ → Option (Quantity ℝ) → Prop) (tree : Expr ℝ)
    (bound : Bindings ℝ) (share : Measurement ℝ → ℝ) (dependencies : List (Measurement ℝ))
    (total result : Quantity ℝ) (h : Adds variance tree bound dependencies total result)
    (hnamed : ∀ dependency ∈ dependencies, dependency.symbol? ≠ none)
    (hshare : ∀ dependency ∈ dependencies, ∀ symbol v, dependency.symbol? = some symbol →
      variance dependency (some v) →
        share dependency = ((tree.differentiate symbol).denote bound.value) ^ 2 * v.value) :
    result.value = total.value + (dependencies.map share).sum := by
  induction h with
  | done total => rw [List.map_nil, List.sum_nil, add_zero]
  | unnamed dependency rest total result hsymbol _ _ =>
      exact absurd hsymbol (hnamed dependency List.mem_cons_self)
  | passed dependency rest symbol v total result hsymbol hvariance hzero _ ih =>
      rw [ih (fun other hother => hnamed other (List.mem_cons_of_mem _ hother))
        (fun other hother => hshare other (List.mem_cons_of_mem _ hother)), List.map_cons,
        List.sum_cons, hshare dependency List.mem_cons_self symbol v hsymbol hvariance,
        (RealScalar.isZero_iff v.value).mp hzero, mul_zero, zero_add]
  | added dependency rest symbol v total next result hsymbol hvariance _ hnext _ ih =>
      -- The square is computed as an integer power of the slope.
      rw [addContribution_eq_ok] at hnext
      rcases hnext with ⟨slope, square, product, hslope, hsquare, hproduct, hnext⟩
      rw [Quantity.powInt_eq_ok, RealScalar.powInt_two] at hsquare
      rw [Quantity.mul_eq_ok] at hproduct
      rw [Quantity.add_eq_ok] at hnext
      have hvalue : next.value = total.value + slope.value * slope.value * v.value := by
        rw [hnext.2, ← hsquare.1, ← hproduct.1]
      rw [ih (fun other hother => hnamed other (List.mem_cons_of_mem _ hother))
        (fun other hother => hshare other (List.mem_cons_of_mem _ hother)), List.map_cons,
        List.sum_cons, hshare dependency List.mem_cons_self symbol v hsymbol hvariance, hvalue,
        Expr.value_of_evaluate bound _ slope hslope]
      ring

/-- Where contributions are added up, every named dependency has a variance. -/
theorem Adds.variances {α : Type} [Scalar α]
    (variance : Measurement α → Option (Quantity α) → Prop) (tree : Expr α) (bound : Bindings α)
    (dependencies : List (Measurement α)) (total result : Quantity α)
    (h : Adds variance tree bound dependencies total result) :
    ∀ dependency ∈ dependencies, dependency.symbol? ≠ none → ∃ v, variance dependency (some v) := by
  induction h with
  | done total => exact fun _ hmem => absurd hmem List.not_mem_nil
  | unnamed dependency rest total result hsymbol _ ih =>
      exact List.forall_mem_cons.mpr ⟨fun h => absurd hsymbol h, ih⟩
  | passed dependency rest symbol v total result _ hvariance _ _ ih =>
      exact List.forall_mem_cons.mpr ⟨fun _ => ⟨v, hvariance⟩, ih⟩
  | added dependency rest symbol v total next result _ hvariance _ _ _ ih =>
      exact List.forall_mem_cons.mpr ⟨fun _ => ⟨v, hvariance⟩, ih⟩

end Evaluation

namespace Graph

open Evaluation

/-- The partial derivative of an inlined formula with respect to a direct measurement. -/
noncomputable def sensitivity (point : String → ℝ) (tree : Expr Decimal)
    (d : DirectMeasurement ℝ) : ℝ :=
  deriv ((Expr.ofDecimals tree).denoteAlong (d.name.symbol?.getD "") point)
    (point (d.name.symbol?.getD ""))

/-- The variance of a direct measurement as a number. -/
noncomputable def varianceValue (types : UncertaintyTypes) (d : DirectMeasurement ℝ) : ℝ :=
  match directVariance d types with
  | .ok (some v) => v.value
  | _ => 0

theorem varianceValue_eq (types : UncertaintyTypes) (d : DirectMeasurement ℝ) (v : Quantity ℝ)
    (h : directVariance d types = .ok (some v)) : varianceValue types d = v.value := by
  rw [varianceValue, h]

/-- The sum over the direct measurements below of squared derivatives times variances. -/
noncomputable def linearized (g : Graph ℝ) (types : UncertaintyTypes) (point : String → ℝ)
    (m : Measurement ℝ) (tree : Expr Decimal) : ℝ :=
  ∑ d ∈ g.directsBelow m, sensitivity point tree d ^ 2 * varianceValue types d

/-- A formula that is smooth in what is below a measurement. -/
def SmoothBelow (g : Graph ℝ) (point : String → ℝ) (m : Measurement ℝ) (tree : Expr Decimal) :
    Prop :=
  ∀ d, g.Reaches m (.direct d) → ∀ symbol, d.name.symbol? = some symbol →
    (Expr.ofDecimals tree).Smooth symbol point

/-- A variance that obeys the law, with every formula that stands for the measurement. -/
def Linear (g : Graph ℝ) (types : UncertaintyTypes) (point : String → ℝ) (m : Measurement ℝ)
    (variance? : Option (Quantity ℝ)) : Prop :=
  ∀ v, variance? = some v →
    (∀ d, g.Reaches m (.direct d) → ∃ w, directVariance d types = .ok (some w)) ∧
      ∀ tree, g.Stands m tree → g.SmoothBelow point m tree →
        v.value = g.linearized types point m tree

/-- A direct measurement obeys the law: its symbol varies like itself. -/
theorem linear_direct (g : Graph ℝ) (types : UncertaintyTypes) (point : String → ℝ)
    (d : DirectMeasurement ℝ) (hd : .direct d ∈ g.measurements) (variance? : Option (Quantity ℝ))
    (h : directVariance d types = .ok variance?) : g.Linear types point (.direct d) variance? := by
  rintro v rfl
  have hbelow : ∀ other, g.Reaches (.direct d) (.direct other) → other = d := by
    intro other hreaches
    rw [← g.mem_directsBelow _ hd, g.directsBelow_direct d hd, Finset.mem_singleton] at hreaches
    exact hreaches
  refine ⟨fun other hreaches => ⟨v, hbelow other hreaches ▸ h⟩, fun tree hstands _ => ?_⟩
  cases hstands with
  | direct _ symbol hsymbol =>
      have hid : (Expr.ofDecimals (.symbol symbol)).denoteAlong symbol point = id := by
        funext x
        exact Function.update_self symbol x point
      rw [linearized, g.directsBelow_direct d hd, Finset.sum_singleton, sensitivity, hsymbol,
        Option.getD_some, hid, deriv_id, one_pow, one_mul, varianceValue_eq types d v h]

section Formulas

variable (g : Graph ℝ) (hids : g.DistinctIds) (hsymbols : g.DistinctSymbols)
  (start : Measurement ℝ) (hstart : start ∈ g.measurements) (bound : Bindings ℝ)
  (hoverlays : g.Overlays start bound) (m : CompositeMeasurement)
  (hreaches : g.Reaches start (.composite m)) (tree : Expr Decimal)
  (htree : m.tree (α := ℝ) = .ok tree) (dependencies : List (Measurement ℝ))
  (hdependencies : g.dependencies m = .ok dependencies) (bound' : Bindings ℝ)
  (hbinds : Binds (g.Means bound) dependencies g.constants bound') (part : String → Expr Decimal)
  (hkept : ∀ symbol ∈ tree.freeSymbols,
    (∀ c, g.find? m symbol ≠ some (.composite c)) → part symbol = .symbol symbol)
  (hinlined : ∀ symbol ∈ tree.freeSymbols,
    ∀ c, g.find? m symbol = some (.composite c) → g.Inlines c (part symbol))

include hids hsymbols hstart hoverlays hreaches htree hdependencies hbinds hkept hinlined in
/-- A name is bound to the number that its replacement denotes. -/
theorem value_of_bound (name : String) (hname : name ∈ tree.freeSymbols) :
    bound'.value name = (Expr.ofDecimals (part name)).denote bound.value := by
  cases hfind : g.find? m name with
  | none =>
      -- A constant is bound to the same number in every formula.
      have hconstant := g.bound_constant hids m dependencies hdependencies _ bound' hbinds name hfind
      rw [← hoverlays.constant_of_find? g hids start hstart bound m (hreaches.mem g _ _ hstart)
        name hfind] at hconstant
      rw [hkept name hname (fun c hc => by rw [hfind] at hc; cases hc), Bindings.value, hconstant]
      rfl
  | some other =>
      have href : g.References (.composite m) other := ⟨tree, htree, name, hname, hfind⟩
      have hsymbol := (g.find?_eq_some m name other hfind).2.1
      rcases g.bound_mean hids m dependencies hdependencies _ bound' hbinds hsymbols name other href
        hsymbol with ⟨mean, ⟨q, hq, hdenotes⟩, hresult⟩
      rw [Option.some.inj hq] at hresult
      have hvalue : bound'.value name = q.value := by rw [Bindings.value, hresult]
      rw [hvalue]
      cases other with
      | direct d =>
          have hdirect := hoverlays.measured d (hreaches.tail href) name hsymbol
          have hmean : directMean d = .ok (some q) := hdenotes
          rw [hmean, Except.ok.injEq] at hdirect
          rw [hkept name hname (fun c hc => by rw [hfind] at hc; cases hc)]
          change _ = bound.value name
          rw [Bindings.value, ← hdirect]
      | composite c =>
          exact Expr.value_of_evaluate bound _ q (hdenotes _ (hinlined name hname c hfind))

include hids hsymbols hstart hoverlays hreaches htree hdependencies hbinds hkept hinlined in
/-- So the derivative of the formula has one value, at what is bound and at what the
    replacements denote. -/
theorem derivative_at_means (symbol : String) :
    ((Expr.ofDecimals tree).differentiate symbol).denote bound'.value =
      ((Expr.ofDecimals tree).differentiate symbol).denote
        fun name => (Expr.ofDecimals (part name)).denote bound.value := by
  refine Expr.denote_congr _ _ _ (Expr.MentionsOnly.differentiate symbol _ (fun name hname => ?_))
  rw [Expr.mentions_ofDecimals, ← Expr.mem_freeSymbols] at hname
  exact g.value_of_bound hids hsymbols start hstart bound hoverlays m hreaches tree htree
    dependencies hdependencies bound' hbinds part hkept hinlined name hname

variable (hshape : g.TreeShaped start)
  (hsmooth : g.SmoothBelow bound.value (.composite m) (tree.substitute part))

include hids hsymbols hstart hreaches htree hkept hinlined hshape hsmooth in
/-- The chain rule along the graph: what is below a dependency moves the formula through
    the symbol of the dependency only. -/
theorem sensitivity_chain (dependency : Measurement ℝ) (symbol : String)
    (hsymbol : symbol ∈ tree.freeSymbols) (hfind : g.find? m symbol = some dependency)
    (d : DirectMeasurement ℝ) (hd : g.Reaches dependency (.direct d)) :
    sensitivity bound.value (tree.substitute part) d =
      ((Expr.ofDecimals tree).differentiate symbol).denote
          (fun name => (Expr.ofDecimals (part name)).denote bound.value) *
        sensitivity bound.value (part symbol) d := by
  have href : g.References (.composite m) dependency := ⟨tree, htree, symbol, hsymbol, hfind⟩
  rcases g.symbol_of_reaches m d (.head href hd) with ⟨target, htarget⟩
  have hmem : .direct d ∈ g.measurements :=
    Reaches.mem g start _ hstart ((hreaches.tail href).trans hd)
  have hmentions : (Expr.ofDecimals tree : Expr ℝ).mentions symbol = true := by
    rw [Expr.mentions_ofDecimals, ← Expr.mem_freeSymbols]
    exact hsymbol
  have hstands : ∀ name ∈ tree.freeSymbols, ∀ other, g.find? m name = some other →
      ((Expr.ofDecimals (part name) : Expr ℝ).mentions target = true ↔
        g.Reaches other (.direct d)) := by
    intro name hname other hother
    rw [Expr.mentions_ofDecimals]
    exact (g.stands_of_find? m name other part (hkept name hname) (hinlined name hname)
      hother).mentions_iff g hids hsymbols d hmem target htarget other _
        (g.find?_eq_some m name other hother).1
  have hcomposed := hsmooth d (.head href hd) target htarget
  rw [Expr.ofDecimals_substitute] at hcomposed
  have houter := hcomposed.outer _ _ symbol target _ ((hstands symbol hsymbol _ hfind).mpr hd)
  have hinner := hcomposed.inner _ _ symbol target _ hmentions
  rcases Expr.hasDerivAt_denote symbol _ _ houter with ⟨slope, hslope, hderiv⟩
  rcases Expr.hasDerivAt_denote target _ _ hinner with ⟨inner, -, hinnerDeriv⟩
  have hchain := Expr.hasDerivAt_substitute (fun name => .ofDecimals (part name))
    bound.value symbol target _ slope inner hderiv hinnerDeriv (fun name hname hdiffer => ?_)
  · rw [sensitivity, sensitivity, htarget, Option.getD_some, Expr.ofDecimals_substitute,
      hchain.deriv, hslope.denote_eq]
    exact congrArg (slope * ·) hinnerDeriv.deriv.symm
  · -- Another symbol that depends on it would lead to it in a second way.
    rw [Expr.mentions_ofDecimals, ← Expr.mem_freeSymbols] at hname
    refine Bool.eq_false_iff.mpr (fun hdepends => hdiffer ?_)
    cases hother : g.find? m name with
    | none =>
        rw [hkept name hname (fun c hc => by rw [hother] at hc; cases hc)] at hdepends
        have hsame : name = target := of_decide_eq_true hdepends
        rw [hsame, g.find?_direct hids hsymbols d hmem target htarget m
          (hreaches.mem g _ _ hstart)] at hother
        cases hother
    | some other =>
        have hbelow := (hstands name hname other hother).mp hdepends
        have hsame := hshape.eq_of_reaches g start m other dependency _ hreaches
          ⟨tree, htree, name, hname, hother⟩ href hbelow hd
        have hnames := (g.find?_eq_some m name other hother).2.1
        rw [hsame, (g.find?_eq_some m symbol dependency hfind).2.1] at hnames
        exact (Option.some.inj hnames).symm

include hids hsymbols hstart hoverlays hreaches htree hdependencies hbinds hkept hinlined hshape
  hsmooth in
/-- What is below a dependency contributes to the law what the dependency contributes to
    the variance. -/
theorem share_eq (types : UncertaintyTypes) (dependency : Measurement ℝ) (symbol : String)
    (v : Quantity ℝ) (hmem : dependency ∈ dependencies) (hsymbol : dependency.symbol? = some symbol)
    (hlinear : g.Linear types bound.value dependency (some v)) :
    ∑ d ∈ g.directsBelow dependency,
        sensitivity bound.value (tree.substitute part) d ^ 2 * varianceValue types d =
      (((Expr.ofDecimals tree).differentiate symbol).denote bound'.value) ^ 2 * v.value := by
  have href := (g.mem_dependencies_iff hids m dependencies hdependencies dependency).mp hmem
  rcases id href with ⟨tree', htree', name, hname, hfind⟩
  rw [htree, Except.ok.injEq] at htree'
  subst htree'
  have hsame := (g.find?_eq_some m name dependency hfind).2.1
  rw [hsymbol, Option.some.injEq] at hsame
  subst hsame
  have hstands := g.stands_of_find? m symbol dependency part (hkept symbol hname)
    (hinlined symbol hname) hfind
  -- The replacement is a part of the inlined formula, which is smooth.
  have hinner : g.SmoothBelow bound.value dependency (part symbol) := by
    intro d hd target htarget
    have hcomposed := hsmooth d (.head href hd) target htarget
    rw [Expr.ofDecimals_substitute] at hcomposed
    refine hcomposed.inner _ _ symbol target _ ?_
    rw [Expr.mentions_ofDecimals, ← Expr.mem_freeSymbols]
    exact hname
  rw [(hlinear v rfl).2 _ hstands hinner, linearized, Finset.mul_sum,
    g.derivative_at_means hids hsymbols start hstart bound hoverlays m hreaches tree htree
      dependencies hdependencies bound' hbinds part hkept hinlined symbol]
  refine Finset.sum_congr rfl (fun d hd => ?_)
  rw [g.mem_directsBelow dependency href.mem] at hd
  rw [g.sensitivity_chain hids hsymbols start hstart bound m hreaches tree htree part hkept hinlined
    hshape hsmooth dependency symbol hname hfind d hd, mul_pow, mul_assoc]

include hids hsymbols hstart hoverlays hreaches htree hdependencies hbinds hshape in
omit part hkept hinlined hsmooth in
/-- A composite measurement obeys the law if its dependencies do. -/
theorem linear_composite (types : UncertaintyTypes) (unit : CompoundUnit ℝ) (result : Quantity ℝ)
    (h : Adds (g.Linear types bound.value) (.ofDecimals tree) bound' dependencies
      (.inUnit Arithmetic.zero unit) result) :
    g.Linear types bound.value (.composite m) (some result) := by
  have href := g.mem_dependencies_iff hids m dependencies hdependencies
  have hnamed := g.symbol_of_dependencies m dependencies hdependencies
  intro v hv
  rw [← Option.some.inj hv]
  refine ⟨fun d hd => ?_, fun inlined hstands hsmooth => ?_⟩
  · rcases Relation.ReflTransGen.cases_head hd with hsame | ⟨next, hnext, hrest⟩
    · cases hsame
    · have hmem := (href next).mpr hnext
      rcases h.variances _ _ _ _ _ _ next hmem (hnamed next hmem) with ⟨w, hlinear⟩
      exact (hlinear w rfl).1 d hrest
  · -- The contributions are those of the formula, and the dependencies obey the law already.
    cases hstands with
    | composite _ _ hinlines =>
        cases hinlines with
        | formula _ tree' part htree' hkept hinlined =>
            rw [htree, Except.ok.injEq] at htree'
            subst htree'
            rw [h.value_eq _ _ _ (fun dependency => ∑ d ∈ g.directsBelow dependency,
              sensitivity bound.value (tree.substitute part) d ^ 2 * varianceValue types d) _ _ _
              hnamed (fun dependency hmem symbol w hsymbol hlinear => ?_), Quantity.value_inUnit_zero,
              zero_add, linearized,
              g.sum_directsBelow hids start hstart hshape m hreaches dependencies hdependencies]
            exact g.share_eq hids hsymbols start hstart bound hoverlays m hreaches tree htree
              dependencies hdependencies bound' hbinds part hkept hinlined hshape hsmooth types
              dependency symbol w hmem hsymbol hlinear

end Formulas

/-- The law as an account of variances. -/
def linearVariances (g : Graph ℝ) (hids : g.DistinctIds) (hsymbols : g.DistinctSymbols)
    (start : Measurement ℝ) (hstart : start ∈ g.measurements) (bound : Bindings ℝ)
    (hoverlays : g.Overlays start bound) (hsettled : g.Settled start)
    (hmeasured : g.Measured start) (hshape : g.TreeShaped start) (types : UncertaintyTypes) :
    VarianceAccount
      (g.inlinedMeans hids hsymbols start hstart bound hoverlays hsettled hmeasured) types where
  variance := g.Linear types bound.value
  failure _ _ := True
  direct_variance _ d v h hv := g.linear_direct types bound.value d (Approach.mem h) v hv
  direct_failure _ _ _ _ _ := True.intro
  of_mean _ _ _ _ _ := True.intro
  fails _ _ _ _ _ _ _ _ _ := True.intro
  missing_mean _ _ _ _ _ _ _ _ _ h := by cases h
  missing _ _ _ _ _ _ _ _ _ h := by cases h
  square_fails _ _ _ _ _ _ _ _ _ := True.intro
  term_fails _ _ _ _ _ _ _ _ _ _ _ _ _ _ _ _ _ _ _ _ := True.intro
  summed _ m tree dependencies bound' _ unit h _ result hadds :=
    g.linear_composite hids hsymbols start hstart bound hoverlays m (Approach.walk h.reached).reaches
      tree h.tree_eq dependencies h.dependencies_eq bound' h.binds hshape types unit result hadds

end Graph

namespace Propagator

open Evaluation

variable {σ : Type} [DerivativeStore σ ℝ]

/-- The variance of a composite measurement obeys the law. -/
theorem linear_of_combinedVariance (p : Propagator σ ℝ) (all : List (Measurement ℝ))
    (hids : (p.graph all).DistinctIds) (hsymbols : (p.graph all).DistinctSymbols)
    (m : CompositeMeasurement) (hm : .composite m ∈ all) (types : UncertaintyTypes)
    (hstore : DerivativeStore.Answers ((p.graph all).Asks (.composite m)) p.store)
    (hshape : (p.graph all).TreeShaped (.composite m)) (bound : Bindings ℝ)
    (hoverlays : (p.graph all).Overlays (.composite m) bound) (v : Quantity ℝ)
    (h : ((Propagator.combinedVariance (.composite m) all types).run p).1 = .ok (some v)) :
    (p.graph all).Linear types bound.value (.composite m) (some v) := by
  rcases mean_of_combinedVariance p all m types v h with ⟨q, hmean⟩
  have hsettled := settled_of_mean p all hids _ hm q hmean
  have hmeasured := measured_of_mean p all hids _ hm q hmean
  -- The law holds of what is found without a memory, and that is what is found.
  rw [combinedVariance_noMemory p all hids _ types hstore] at h
  exact ((((p.graph all).linearVariances hids hsymbols _ hm bound hoverlays hsettled hmeasured hshape
    types).meets ((p.graph all).depth (.composite m)) [] _ (.start _ _ hm)
    (Nat.le_add_left _ _)).outcome _ _ _ (Meets.follows_fresh _)).1 (some v) h

end Propagator

end Metrology
