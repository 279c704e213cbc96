import Metrology.Proofs.Propagation.Flattened
import Metrology.Proofs.Propagation.Linearized
import Metrology.Proofs.Propagation.Shortcut

/-!
# The law of propagation in one formula and in many

Two things follow from the law for a variance that is found. A measurement whose formula is the
inlined one finds the same variance, if it finds one: the law speaks of the same direct
measurements and of the same formula, and the units are squares of one mean's. And making all
terms, instead of passing over those of variance zero, finds the same variance, if it finds one.

Neither can be turned round. A derivative that was simplified to a bare zero has lost its
dimension, and its term cannot be added to the others. Where that happens depends on how the
formula is cut up, and on whether the term is made at all.

## Theorems

* `Propagator.flattened_variance`: The inlined formula has the same variance.
* `Propagator.linearized_law`: Variances obey the law, and do not depend on the way to them.
* `Propagator.linearized_law_incomplete`: The way decides whether there is a variance.
-/

namespace Metrology

namespace Graph

open Evaluation

/-- The sum of the law is the same for a flattened measurement. -/
theorem Flattens.linearized_eq (g : Graph ℝ) (hids : g.DistinctIds) (hsymbols : g.DistinctSymbols)
    (flat m : CompositeMeasurement) (inlined : Expr Decimal) (h : g.Flattens flat m inlined)
    (hm : .composite m ∈ g.measurements) (hsettled : g.Settled (.composite m))
    (types : UncertaintyTypes) (point : String → ℝ) :
    g.linearized types point (.composite flat) inlined =
      g.linearized types point (.composite m) inlined := by
  have hbelow : g.directsBelow (.composite flat) = g.directsBelow (.composite m) := by
    ext d
    rw [g.mem_directsBelow _ h.mem, g.mem_directsBelow _ hm]
    exact h.reaches_iff g hids hsymbols flat m inlined hm hsettled d
  rw [linearized, linearized, hbelow]

end Graph

namespace Propagator

open Evaluation

variable {σ : Type} [DerivativeStore σ ℝ]

section Flattened

variable (p : Propagator σ ℝ) (all : List (Measurement ℝ)) (hids : (p.graph all).DistinctIds)
  (hsymbols : (p.graph all).DistinctSymbols) (m flat : CompositeMeasurement)
  (hm : .composite m ∈ all) (inlined : Expr Decimal)
  (hflat : (p.graph all).Flattens flat m inlined) (types : UncertaintyTypes) (v w : Quantity ℝ)
  (hv : ((Propagator.combinedVariance (.composite m) all types).run p).1 = .ok (some v))
  (hw : ((Propagator.combinedVariance (.composite flat) all types).run p).1 = .ok (some w))

include hids hsymbols hm hflat hv hw

/-- The unit is the square of the unit of one mean, that of the inlined formula. -/
theorem flattened_unit : w.unit = v.unit := by
  rcases mean_of_combinedVariance p all m types v hv with ⟨q, hq⟩
  rcases mean_of_combinedVariance p all flat types w hw with ⟨r, hr⟩
  have hsettled := settled_of_mean p all hids _ hm q hq
  rcases Graph.exists_overlay _ hsymbols _ hm (measured_of_mean p all hids _ hm q hq) with
    ⟨bound, hoverlays⟩
  have hself := hflat.inlines_self _ hids hsymbols flat m inlined hm hsettled
  have hvalue := denotes_of_mean p all hids hsymbols _ hm q hq bound hoverlays inlined hflat.inlines
  have hvalue' := denotes_of_mean p all hids hsymbols _ hflat.mem r hr bound
    (hflat.overlays _ hids hsymbols flat m inlined hm hsettled bound hoverlays) inlined hself
  rw [hvalue, Except.ok.injEq] at hvalue'
  rw [Propagator.mean, run_ask] at hq hr
  rw [Propagator.combinedVariance, run_ask] at hv hw
  have hsquare := combinedVariance_unit _ types _ _ _ _ q v hq hv
  have hsquare' := combinedVariance_unit _ types _ _ _ _ r w hr hw
  rw [← hvalue', hsquare, Except.ok.injEq] at hsquare'
  exact hsquare'.symm

/-- The inlined formula has the same variance, if it has one. -/
theorem flattened_variance
    (hstore : DerivativeStore.Answers ((p.graph all).Asks (.composite m)) p.store)
    (hstore' : DerivativeStore.Answers ((p.graph all).Asks (.composite flat)) p.store)
    (hshape : (p.graph all).TreeShaped (.composite m)) (bound : Bindings ℝ)
    (hoverlays : (p.graph all).Overlays (.composite m) bound)
    (hsmooth : (p.graph all).SmoothBelow bound.value (.composite m) inlined) : w = v := by
  rcases mean_of_combinedVariance p all m types v hv with ⟨q, hq⟩
  have hsettled := settled_of_mean p all hids _ hm q hq
  have hreaches := hflat.reaches_iff _ hids hsymbols flat m inlined hm hsettled
  have hself := hflat.inlines_self _ hids hsymbols flat m inlined hm hsettled
  have hlinear := linear_of_combinedVariance p all hids hsymbols m hm types hstore hshape bound
    hoverlays v hv
  have hlinear' := linear_of_combinedVariance p all hids hsymbols flat hflat.mem types hstore'
    (hflat.treeShaped _ hids hsymbols flat m inlined hm hsettled) bound
    (hflat.overlays _ hids hsymbols flat m inlined hm hsettled bound hoverlays) w hw
  have hvalue : w.value = v.value := by
    rw [(hlinear v rfl).2 inlined (.composite m inlined hflat.inlines) hsmooth,
      (hlinear' w rfl).2 inlined (.composite flat inlined hself)
        fun d hd => hsmooth d ((hreaches d).mp hd),
      hflat.linearized_eq _ hids hsymbols flat m inlined hm hsettled]
  have hunit := flattened_unit p all hids hsymbols m flat hm inlined hflat types v w hv hw
  cases v
  cases w
  exact congrArg₂ Quantity.mk hvalue hunit

end Flattened

/-- A variance is the sum of the variances of the direct measurements below, each times
    the square of the partial derivative of the inlined formula at the means, if nothing
    is reached in two ways and the inlined formula is smooth at the means. The nodes of
    that formula are those of the formulas below, at the means of what they mention.

    A measurement with the inlined formula has that variance too, or none is found for it. And
    what is found when variances of zero are not passed over is what is found. -/
theorem linearized_law (p : Propagator σ ℝ) (all : List (Measurement ℝ))
    (hids : (all.map Measurement.id).Nodup) (hsymbols : (all.filterMap Measurement.symbol?).Nodup)
    (m : CompositeMeasurement) (hm : .composite m ∈ all) (types : UncertaintyTypes)
    (hstore : DerivativeStore.Answers ((p.graph all).Asks (.composite m)) p.store)
    (hpaths : ∀ other, (p.graph all).Reaches (.composite m) other →
      ∃! path, (p.graph all).Walk (.composite m) path other)
    (hsmooth : ∀ inlined bound, (p.graph all).Inlines m inlined →
      (p.graph all).Overlays (.composite m) bound →
        ∀ d, (p.graph all).Reaches (.composite m) (.direct d) →
          ∀ symbol, d.name.symbol? = some symbol →
            (Expr.ofDecimals inlined).Smooth symbol bound.value) :
    (∀ v, ((Propagator.combinedVariance (.composite m) all types).run p).1 = .ok (some v) →
      (∃ inlined bound, (p.graph all).Inlines m inlined ∧
        (p.graph all).Overlays (.composite m) bound ∧
        ∃ (slope : DirectMeasurement ℝ → ℝ) (variance : DirectMeasurement ℝ → Quantity ℝ),
          (∀ d, (p.graph all).Reaches (.composite m) (.direct d) →
            directVariance d types = .ok (some (variance d)) ∧
              ∃ symbol, d.name.symbol? = some symbol ∧
                HasDerivAt (fun x =>
                    (Expr.ofDecimals inlined).denote (Function.update bound.value symbol x))
                  (slope d) (bound.value symbol)) ∧
          v.value = ∑ d ∈ (p.graph all).directsBelow (.composite m),
            slope d ^ 2 * (variance d).value) ∧
      ∀ flat inlined, .composite flat ∈ all → (p.graph all).Inlines m inlined →
        flat.tree (α := ℝ) = .ok inlined →
        DerivativeStore.Answers ((p.graph all).Asks (.composite flat)) p.store →
          ∀ r, ((Propagator.combinedVariance (.composite flat) all types).run p).1 = .ok r →
            r = some v) ∧
    ∀ r, everyVariance p.constants (.composite m) all types = .ok r →
      ((Propagator.combinedVariance (.composite m) all types).run p).1 = .ok r := by
  have hdistinct : (p.graph all).DistinctIds := hids
  have hnamed : (p.graph all).DistinctSymbols := hsymbols
  refine ⟨fun v h => ?_, combinedVariance_of_everyVariance p all hids _ types hstore⟩
  rcases mean_of_combinedVariance p all m types v h with ⟨q, hmean⟩
  have hsettled := settled_of_mean p all hdistinct _ hm q hmean
  have hmeasured := measured_of_mean p all hdistinct _ hm q hmean
  rcases Graph.exists_overlay _ hnamed _ hm hmeasured with ⟨bound, hoverlays⟩
  have hlinear := linear_of_combinedVariance p all hdistinct hnamed m hm types hstore hpaths bound
    hoverlays v h
  constructor
  · rcases hsettled.inlines _ hdistinct _ m rfl with ⟨inlined, hinlines⟩
    have hsmooth := hsmooth inlined bound hinlines hoverlays
    refine ⟨inlined, bound, hinlines, hoverlays, Graph.sensitivity bound.value inlined, ?_⟩
    rcases hlinear v rfl with ⟨hvariances, hvalue⟩
    have hnonempty : Nonempty (Quantity ℝ) := ⟨v⟩
    choose! variance hvariance using hvariances
    refine ⟨variance, fun d hd => ⟨hvariance d hd, ?_⟩, ?_⟩
    · rcases Graph.symbol_of_reaches _ m d hd with ⟨symbol, hsymbol⟩
      rcases Expr.hasDerivAt_denote symbol _ _ (hsmooth d hd symbol hsymbol) with
        ⟨slope, -, hderiv⟩
      refine ⟨symbol, hsymbol, ?_⟩
      rw [Graph.sensitivity, hsymbol, Option.getD_some]
      exact hderiv.differentiableAt.hasDerivAt
    · rw [hvalue inlined (.composite m inlined hinlines) hsmooth, Graph.linearized]
      refine Finset.sum_congr rfl (fun d hd => ?_)
      rw [Graph.mem_directsBelow _ _ hm] at hd
      rw [Graph.varianceValue_eq types d _ (hvariance d hd)]
  · intro flat inlined hmem hinlines htree hstore' r hr
    have hflat : (p.graph all).Flattens flat m inlined := ⟨hmem, hinlines, htree⟩
    -- The means below are those below the other one, so the variance is not missing.
    have hpresent := combinedVariance_ne_none p all hdistinct (.composite flat) hmem types
      (hflat.measured _ hdistinct hnamed flat m inlined hm hsettled hmeasured)
    cases r with
    | none => exact absurd hr hpresent
    | some w =>
        exact congrArg some (flattened_variance p all hdistinct hnamed m flat hm inlined hflat types
          v w h hr hstore hstore' hpaths bound hoverlays (hsmooth inlined bound hinlines hoverlays))

section Example

/-- What a plain number contributes to another one. -/
theorem addContribution_number (tree : Expr ℝ) (bound : Bindings ℝ) (symbol : String)
    (slope v total : ℝ)
    (hslope : (tree.differentiate symbol).evaluate bound = .ok (.number slope)) :
    addContribution tree bound symbol (.number v) (.number total) =
      .ok (.number (total + slope * slope * v)) := by
  have hsquare : (Quantity.number slope).powInt 2 = .ok (.number (slope * slope)) := by
    rw [← RealScalar.powInt_two slope]
    rfl
  exact (addContribution_eq_ok _ _ _ _ _ _).mpr ⟨_, _, _, hslope, hsquare, rfl, rfl⟩

theorem inUnit_none (x : ℝ) : Quantity.inUnit x .none = .number x := by
  have hscale : (CompoundUnit.none : CompoundUnit ℝ).scale = 1 := RealScalar.one_eq
  rw [Quantity.inUnit, CompoundUnit.toBase, hscale, mul_one]
  rfl

theorem inUnit_zero : (Quantity.inUnit Arithmetic.zero .none : Quantity ℝ) = .number 0 := by
  rw [inUnit_none, RealScalar.zero_eq]

theorem isZero_number (x : ℝ) (hx : x ≠ 0) : (Quantity.number x).isZero = false := by
  simpa [Quantity.isZero, Quantity.number] using hx

/-- A number that was found to be 1 and then to be 3. -/
noncomputable def sampled (id : Nat) (name : String) : DirectMeasurement ℝ :=
  { DirectMeasurement.empty ⟨id⟩ name "" with values := [1, 3] }

def doubled : CompositeMeasurement := ⟨⟨3⟩, ⟨"d"⟩, ⟨"2 * x"⟩⟩

def doubledTimes : CompositeMeasurement := ⟨⟨4⟩, ⟨"p"⟩, ⟨"d * y"⟩⟩

/-- The same in one formula. -/
def doubledTimesInlined : CompositeMeasurement := ⟨⟨5⟩, ⟨"q"⟩, ⟨"2 * x * y"⟩⟩

/-- Two numbers, the double of one, and the product of that with the other, in two formulas and
    in one. -/
noncomputable def products : Graph ℝ where
  measurements := [.direct (sampled 1 "x"), .direct (sampled 2 "y"), .composite doubled,
    .composite doubledTimes, .composite doubledTimesInlined]
  constants := Bindings.empty

theorem directUnit_sampled (id : Nat) (name : String) :
    directUnit (sampled id name) = .ok .none := by
  have hread : CompoundUnit.read (α := ℝ) "" = .ok .none := Outcome.eq_ok_of_toOption _ _ rfl
  rw [directUnit, sampled, DirectMeasurement.empty, hread]
  rfl

theorem meanValue_sampled (id : Nat) (name : String) : (sampled id name).meanValue = some 2 := by
  have htwo : (Arithmetic.ofNat 2 : ℝ) = 2 := RealScalar.ofNat_eq 2
  simp only [DirectMeasurement.meanValue, sampled, Statistics.mean, Statistics.sum,
    Statistics.Accumulator.add, List.foldl_cons, List.foldl_nil, List.isEmpty_cons,
    List.length_cons, List.length_nil, htwo, RealScalar.zero_eq]
  norm_num

theorem directMean_sampled (id : Nat) (name : String) :
    directMean (sampled id name) = .ok (some (.number 2)) := by
  rw [directMean, meanValue_sampled, directUnit_sampled]
  exact congrArg (fun q => Except.ok (some q)) (inUnit_none 2)

theorem typeAVariance_sampled (id : Nat) (name : String) :
    (sampled id name).typeAVariance = some 1 := by
  have hone : (Arithmetic.ofNat 1 : ℝ) = 1 := RealScalar.one_eq
  have htwo : (Arithmetic.ofNat 2 : ℝ) = 2 := RealScalar.ofNat_eq 2
  simp [DirectMeasurement.typeAVariance, sampled, Statistics.varianceOfMean,
    Statistics.sampleVariance, Statistics.Moments.add, hone, htwo]
  norm_num

theorem directVariance_sampled (id : Nat) (name : String) :
    directVariance (sampled id name) { typeB := false } = .ok (some (.number 1)) := by
  have hsum : directContributions (sampled id name) { typeB := false } = some 1 := by
    simp [directContributions, typeAVariance_sampled]
  rw [directVariance, directUnit_sampled, hsum]
  exact congrArg (fun q => Except.ok (some q)) (inUnit_none 1)

theorem run_variance_sampled (g : Graph ℝ) (fuel id : Nat) (name : String)
    (context : Context (NoMemory ℝ) ℝ) :
    (Evaluation.combinedVariance g { typeB := false } fuel (.direct (sampled id name))).run
      context = (.ok (some (.number 1)), context) := by
  rw [Evaluation.combinedVariance, directVariance_sampled]
  rfl

theorem run_everyVariance_sampled (g : Graph ℝ) (fuel id : Nat) (name : String)
    (context : Context (NoMemory ℝ) ℝ) :
    (Evaluation.everyVariance g { typeB := false } fuel (.direct (sampled id name))).run
      context = (.ok (some (.number 1)), context) := by
  rw [Evaluation.everyVariance, directVariance_sampled]
  rfl

theorem tree_doubled : doubled.tree (α := ℝ) = .ok (.binary .mul (.number ⟨2, 0⟩) (.symbol "x")) :=
  Outcome.eq_ok_of_toOption _ _ (by decide +kernel)

theorem tree_doubledTimes :
    doubledTimes.tree (α := ℝ) = .ok (.binary .mul (.symbol "d") (.symbol "y")) :=
  Outcome.eq_ok_of_toOption _ _ (by decide +kernel)

theorem tree_doubledTimesInlined :
    doubledTimesInlined.tree (α := ℝ) =
      .ok (.binary .mul (.binary .mul (.number ⟨2, 0⟩) (.symbol "x")) (.symbol "y")) :=
  Outcome.eq_ok_of_toOption _ _ (by decide +kernel)

/-- The names are symbols as they are. -/
theorem symbol_names : ∀ name ∈ ["x", "y", "d"], (Name.mk name).symbol? = some name := by
  decide

theorem symbol_x : (Measurement.direct (sampled 1 "x")).symbol? = some "x" :=
  symbol_names "x" (by decide)

theorem symbol_y : (Measurement.direct (sampled 2 "y")).symbol? = some "y" :=
  symbol_names "y" (by decide)

theorem symbol_d : (Measurement.composite (α := ℝ) doubled).symbol? = some "d" :=
  symbol_names "d" (by decide)

theorem find?_x (m : CompositeMeasurement) (hm : (⟨1⟩ : RecordId) ≠ m.id) :
    products.find? m "x" = some (.direct (sampled 1 "x")) := by
  have hid : (Measurement.direct (sampled 1 "x")).id ≠ m.id := hm
  simp [Graph.find?, products, symbol_x, hid]

theorem find?_y (m : CompositeMeasurement) (hm : (⟨2⟩ : RecordId) ≠ m.id) :
    products.find? m "y" = some (.direct (sampled 2 "y")) := by
  have hid : (Measurement.direct (sampled 2 "y")).id ≠ m.id := hm
  simp [Graph.find?, products, symbol_x, symbol_y, hid]

theorem find?_d : products.find? doubledTimes "d" = some (.composite doubled) := by
  have hid : (Measurement.composite (α := ℝ) doubled).id ≠ doubledTimes.id := by decide
  simp [Graph.find?, products, symbol_x, symbol_y, symbol_d, hid]

theorem dependencies_doubled : products.dependencies doubled = .ok [.direct (sampled 1 "x")] :=
  products.dependencies_of_find? _ _ [("x", .direct (sampled 1 "x"))] tree_doubled (by decide)
    (List.forall_mem_singleton.mpr (find?_x _ (by decide))) (by decide)

theorem dependencies_doubledTimes :
    products.dependencies doubledTimes = .ok [.composite doubled, .direct (sampled 2 "y")] :=
  products.dependencies_of_find? _ _ [("d", .composite doubled), ("y", .direct (sampled 2 "y"))]
    tree_doubledTimes (by decide)
    (List.forall_mem_cons.mpr ⟨find?_d, List.forall_mem_singleton.mpr (find?_y _ (by decide))⟩)
    (by decide)

theorem dependencies_doubledTimesInlined :
    products.dependencies doubledTimesInlined =
      .ok [.direct (sampled 1 "x"), .direct (sampled 2 "y")] :=
  products.dependencies_of_find? _ _
    [("x", .direct (sampled 1 "x")), ("y", .direct (sampled 2 "y"))] tree_doubledTimesInlined
    (by decide)
    (List.forall_mem_cons.mpr
      ⟨find?_x _ (by decide), List.forall_mem_singleton.mpr (find?_y _ (by decide))⟩)
    (by decide)

/-- Which numbers the double is evaluated at, whether or not the mean is remembered. -/
theorem run_bindings_doubled (fuel : ℕ) (path : List (RecordId × String))
    (means : List (RecordId × Option (Quantity ℝ)))
    (hx : means.lookup ⟨1⟩ = none ∨ means.lookup ⟨1⟩ = some (some (.number 2))) :
    ∃ means', (bindings products (Evaluation.mean products fuel) doubled).run
        ⟨path, means, (⟨⟩ : NoMemory ℝ)⟩ =
          (.ok (some (Bindings.empty.bind "x" (.number 2))), ⟨path, means', ⟨⟩⟩) ∧
      means'.lookup ⟨1⟩ = some (some (.number 2)) ∧ means'.lookup ⟨2⟩ = means.lookup ⟨2⟩ := by
  rcases run_bindings_direct products doubled _ "x" _ dependencies_doubled symbol_x
    (directMean_sampled 1 "x") fuel ⟨path, means, (⟨⟩ : NoMemory ℝ)⟩ hx with
    ⟨means', hrun, hknown, hother⟩
  exact ⟨means', hrun, hknown, hother ⟨2⟩ (by decide)⟩

theorem evaluate_doubled (x : ℝ) :
    (Expr.ofDecimals (.binary .mul (.number ⟨2, 0⟩) (.symbol "x"))).evaluate
      (Bindings.empty.bind "x" (.number x)) = .ok (.number (2 * x)) := by
  have htwo : (Arithmetic.ofDecimal ⟨2, 0⟩ : ℝ) = 2 := RealScalar.ofNat_eq 2
  rw [← htwo]
  rfl

theorem slope_doubled :
    ((Expr.ofDecimals (.binary .mul (.number ⟨2, 0⟩) (.symbol "x"))).differentiate "x").evaluate
      (Bindings.empty.bind "x" (.number 2)) = .ok (.number (2 : ℝ)) := by
  have htwo : (Arithmetic.ofDecimal ⟨2, 0⟩ : ℝ) = 2 := RealScalar.ofNat_eq 2
  simp [Expr.ofDecimals, Expr.map, Expr.differentiate, Expr.Simplified.mul, Expr.Simplified.add,
    htwo, Expr.evaluate]

/-- The product has the slopes 2 and 4. -/
theorem slope_doubledTimes (symbol : String) (slope : ℝ)
    (h : (symbol, slope) ∈ [("d", 2), ("y", 2 * 2)]) :
    ((Expr.ofDecimals (.binary .mul (.symbol "d") (.symbol "y"))).differentiate symbol).evaluate
      ((Bindings.empty.bind "d" (.number (2 * 2))).bind "y" (.number 2)) = .ok (.number slope) := by
  simp only [List.mem_cons, List.not_mem_nil, or_false, Prod.mk.injEq] at h
  rcases h with h | h
  all_goals
    simp [h, Expr.ofDecimals, Expr.map, Expr.differentiate, Expr.Simplified.mul,
      Expr.Simplified.add, Expr.evaluate, Expr.lookup, Bindings.bind]

/-- In one formula it has the slopes 4 and 4. -/
theorem slope_doubledTimesInlined (symbol : String) (h : symbol ∈ ["x", "y"]) :
    ((Expr.ofDecimals (.binary .mul (.binary .mul (.number ⟨2, 0⟩) (.symbol "x"))
        (.symbol "y"))).differentiate symbol).evaluate
      ((Bindings.empty.bind "x" (.number 2)).bind "y" (.number 2)) =
        .ok (.number (2 * 2 : ℝ)) := by
  have htwo : (Arithmetic.ofDecimal ⟨2, 0⟩ : ℝ) = 2 := RealScalar.ofNat_eq 2
  have hminus : (2 : ℝ) ≠ -1 := by norm_num
  simp only [List.mem_cons, List.not_mem_nil, or_false] at h
  rcases h with h | h
  all_goals
    simp [h, Expr.ofDecimals, Expr.map, Expr.differentiate, Expr.Simplified.mul,
      Expr.Simplified.add, hminus, htwo, Expr.evaluate, Expr.lookup, Bindings.bind]
    rfl

/-- Which numbers the product is evaluated at. -/
theorem run_bindings_doubledTimes (fuel : ℕ) :
    ∃ means, (bindings products (Evaluation.mean products (fuel + 1)) doubledTimes).run
        ⟨[doubledTimes.entry], [], (⟨⟩ : NoMemory ℝ)⟩ =
          (.ok (some ((Bindings.empty.bind "d" (.number (2 * 2))).bind "y" (.number 2))),
            ⟨[doubledTimes.entry], means, ⟨⟩⟩) ∧
      means.lookup ⟨1⟩ = some (some (.number 2)) := by
  rcases run_bindings_doubled fuel [doubledTimes.entry, doubled.entry] [] (Or.inl rfl) with
    ⟨means, hrun, hx, hy⟩
  have hmean : (compositeMean products (Evaluation.mean products fuel) doubled).run
      ⟨[doubledTimes.entry, doubled.entry], [], (⟨⟩ : NoMemory ℝ)⟩ =
        (.ok (some (.number (2 * 2))), ⟨[doubledTimes.entry, doubled.entry], means, ⟨⟩⟩) := by
    rw [compositeMean, tree_doubled, Outcome.run_bind, run_ofExcept]
    simp only
    rw [Outcome.run_bind, hrun]
    simp only
    rw [evaluate_doubled]
    rfl
  have hnew : doubledTimes.entry.1 ≠ doubled.id := by decide
  have hid : doubled.id = ⟨3⟩ := rfl
  have hidy : (sampled 2 "y").id = ⟨2⟩ := rfl
  have hconstants : products.constants = Bindings.empty := rfl
  have h23 : ((⟨2⟩ : RecordId) == ⟨3⟩) = false := by decide
  have h12 : ((⟨1⟩ : RecordId) == ⟨2⟩) = false := by decide
  have h13 : ((⟨1⟩ : RecordId) == ⟨3⟩) = false := by decide
  refine ⟨(⟨2⟩, some (.number 2)) :: (⟨3⟩, some (.number (2 * 2))) :: means, ?_, ?_⟩
  · rw [hid] at hnew
    simp [bindings, dependencies_doubledTimes, bindMeans, Evaluation.mean, directMean_sampled,
      Outcome.run_bind, run_remembered, run_within, hmean, leave, hnew, hid, hidy, hconstants,
      symbol_d, symbol_y, List.lookup_cons, h23, hy]
  · rw [List.lookup_cons, h12, List.lookup_cons, h13]
    exact hx

/-- In one formula it is evaluated at the numbers themselves. -/
theorem run_bindings_doubledTimesInlined (fuel : ℕ) :
    ∃ means, (bindings products (Evaluation.mean products fuel) doubledTimesInlined).run
        (inside doubledTimesInlined (⟨⟩ : NoMemory ℝ)) =
      (.ok (some ((Bindings.empty.bind "x" (.number 2)).bind "y" (.number 2))),
        ⟨[doubledTimesInlined.entry], means, ⟨⟩⟩) := by
  have hidx : (sampled 1 "x").id = ⟨1⟩ := rfl
  have hidy : (sampled 2 "y").id = ⟨2⟩ := rfl
  have hconstants : products.constants = Bindings.empty := rfl
  have h21 : ((⟨2⟩ : RecordId) == ⟨1⟩) = false := by decide
  refine ⟨[(⟨2⟩, some (.number 2)), (⟨1⟩, some (.number 2))], ?_⟩
  simp [bindings, dependencies_doubledTimesInlined, bindMeans, Evaluation.mean,
    directMean_sampled, Outcome.run_bind, run_remembered, hidx, hidy, hconstants, symbol_x,
    symbol_y, List.lookup_cons, h21, inside]

theorem run_variance_doubled (fuel : ℕ) (means : List (RecordId × Option (Quantity ℝ)))
    (hx : means.lookup ⟨1⟩ = some (some (.number 2))) :
    ∃ next,
      (Evaluation.combinedVariance products { typeB := false } (fuel + 1) (.composite doubled)).run
        ⟨[doubledTimes.entry], means, (⟨⟩ : NoMemory ℝ)⟩ =
          (.ok (some (.number (0 + 2 * 2 * 1))), next) ∧
      (Evaluation.everyVariance products { typeB := false } (fuel + 1) (.composite doubled)).run
        ⟨[doubledTimes.entry], means, (⟨⟩ : NoMemory ℝ)⟩ =
          (.ok (some (.number (0 + 2 * 2 * 1))), next) := by
  rcases run_bindings_doubled fuel [doubledTimes.entry, doubled.entry] means (Or.inr hx) with
    ⟨means', hrun, -⟩
  have hbody : (compositeVariance products (Evaluation.mean products fuel)
      (Evaluation.combinedVariance products { typeB := false } fuel) doubled).run
        ⟨[doubledTimes.entry, doubled.entry], means, (⟨⟩ : NoMemory ℝ)⟩ =
          (.ok (some (.number (0 + 2 * 2 * 1))),
            ⟨[doubledTimes.entry, doubled.entry], means', ⟨⟩⟩) := by
    rw [run_compositeVariance _ _ _ _ _ _ _ _ _ .none _ tree_doubled hrun (evaluate_doubled 2) rfl
        dependencies_doubled, inUnit_zero,
      run_addTerms_cons _ _ _ _ _ _ _ _ _ _ _ symbol_x (run_variance_sampled _ _ _ _ _)
        (isZero_number 1 one_ne_zero) (addContribution_number _ _ _ _ _ _ slope_doubled)]
    rfl
  have hevery : (compositeEveryVariance products (Evaluation.mean products fuel)
      (Evaluation.everyVariance products { typeB := false } fuel) doubled).run
        ⟨[doubledTimes.entry, doubled.entry], means, (⟨⟩ : NoMemory ℝ)⟩ =
          (.ok (some (.number (0 + 2 * 2 * 1))),
            ⟨[doubledTimes.entry, doubled.entry], means', ⟨⟩⟩) := by
    rw [run_compositeEveryVariance _ _ _ _ _ _ _ _ _ .none _ tree_doubled hrun (evaluate_doubled 2)
        rfl dependencies_doubled, inUnit_zero,
      run_addEveryTerm_cons _ _ _ _ _ _ _ _ _ _ _ symbol_x (run_everyVariance_sampled _ _ _ _ _)
        (addContribution_number _ _ _ _ _ _ slope_doubled)]
    rfl
  have hnew : ¬ [doubledTimes.entry].any (·.1 = doubled.id) = true := by decide
  refine ⟨⟨[doubledTimes.entry], means', ⟨⟩⟩, ?_, ?_⟩
  · rw [Evaluation.combinedVariance, run_within, if_neg hnew]
    exact congrArg (fun ending => (ending.1, leave ending.2)) hbody
  · rw [Evaluation.everyVariance, run_within, if_neg hnew]
    exact congrArg (fun ending => (ending.1, leave ending.2)) hevery

theorem sum_doubledTimes :
    (0 : ℝ) + 2 * 2 * (0 + 2 * 2 * 1) + 2 * 2 * (2 * 2) * 1 = 32 := by
  norm_num

/-- The variance of the product is the sum of 4 · 4 and 16 · 1. -/
theorem combinedVariance_products :
    ((Propagator.combinedVariance (.composite doubledTimes) products.measurements
      { typeB := false }).run (⟨Bindings.empty, ⟨⟩⟩ : Propagator (NoMemory ℝ) ℝ)).1 =
        .ok (some (.number 32)) := by
  rcases run_bindings_doubledTimes 1 with ⟨means, hrun, hx⟩
  rcases run_variance_doubled 1 means hx with ⟨next, hvariance, -⟩
  have hdepth : products.depth (.composite doubledTimes) = 3 := by decide
  rw [fst_combinedVariance_composite _ products rfl _ _ 2 hdepth, inside,
    run_compositeVariance _ _ _ _ _ _ _ _ _ .none _ tree_doubledTimes hrun rfl rfl
      dependencies_doubledTimes, inUnit_zero,
    run_addTerms_cons _ _ _ _ _ _ _ _ _ _ _ symbol_d hvariance (isZero_number _ (by norm_num))
      (addContribution_number _ _ _ _ _ _ (slope_doubledTimes _ _ List.mem_cons_self)),
    run_addTerms_cons _ _ _ _ _ _ _ _ _ _ _ symbol_y (run_variance_sampled _ _ _ _ _)
      (isZero_number _ one_ne_zero) (addContribution_number _ _ _ _ _ _
        (slope_doubledTimes _ _ (List.mem_cons_of_mem _ List.mem_cons_self))), sum_doubledTimes]
  rfl

/-- It is the same with all terms. -/
theorem everyVariance_products :
    everyVariance Bindings.empty (.composite doubledTimes) products.measurements
      { typeB := false } = .ok (some (.number 32)) := by
  rcases run_bindings_doubledTimes 1 with ⟨means, hrun, hx⟩
  rcases run_variance_doubled 1 means hx with ⟨next, -, hvariance⟩
  have hdepth : products.depth (.composite doubledTimes) = 3 := by decide
  rw [everyVariance_composite Bindings.empty products rfl _ _ 2 hdepth, inside,
    run_compositeEveryVariance _ _ _ _ _ _ _ _ _ .none _ tree_doubledTimes hrun rfl rfl
      dependencies_doubledTimes, inUnit_zero,
    run_addEveryTerm_cons _ _ _ _ _ _ _ _ _ _ _ symbol_d hvariance
      (addContribution_number _ _ _ _ _ _ (slope_doubledTimes _ _ List.mem_cons_self)),
    run_addEveryTerm_cons _ _ _ _ _ _ _ _ _ _ _ symbol_y (run_everyVariance_sampled _ _ _ _ _)
      (addContribution_number _ _ _ _ _ _
        (slope_doubledTimes _ _ (List.mem_cons_of_mem _ List.mem_cons_self))), sum_doubledTimes]
  rfl

/-- In one formula it is the sum of 16 · 1 and 16 · 1. -/
theorem combinedVariance_inlined :
    ((Propagator.combinedVariance (.composite doubledTimesInlined) products.measurements
      { typeB := false }).run (⟨Bindings.empty, ⟨⟩⟩ : Propagator (NoMemory ℝ) ℝ)).1 =
        .ok (some (.number (0 + 2 * 2 * (2 * 2) * 1 + 2 * 2 * (2 * 2) * 1))) := by
  rcases run_bindings_doubledTimesInlined 2 with ⟨means, hrun⟩
  have hdepth : products.depth (.composite doubledTimesInlined) = 3 := by decide
  rw [fst_combinedVariance_composite _ products rfl _ _ 2 hdepth,
    run_compositeVariance _ _ _ _ _ _ _ _ _ .none _ tree_doubledTimesInlined hrun rfl rfl
      dependencies_doubledTimesInlined, inUnit_zero,
    run_addTerms_cons _ _ _ _ _ _ _ _ _ _ _ symbol_x (run_variance_sampled _ _ _ _ _)
      (isZero_number _ one_ne_zero) (addContribution_number _ _ _ _ _ _
        (slope_doubledTimesInlined _ List.mem_cons_self)),
    run_addTerms_cons _ _ _ _ _ _ _ _ _ _ _ symbol_y (run_variance_sampled _ _ _ _ _)
      (isZero_number _ one_ne_zero) (addContribution_number _ _ _ _ _ _
        (slope_doubledTimesInlined _ (List.mem_cons_of_mem _ List.mem_cons_self)))]
  rfl

theorem distinctIds_products : products.DistinctIds := by
  change (products.measurements.map Measurement.id).Nodup
  decide

/-- The walks from the product. -/
theorem walk_products (path : List CompositeMeasurement) (other : Measurement ℝ)
    (h : products.Walk (.composite doubledTimes) path other) :
    (path = [] ∧ other = .composite doubledTimes) ∨
      (path = [doubledTimes] ∧ other = .composite doubled) ∨
      (path = [doubledTimes] ∧ other = .direct (sampled 2 "y")) ∨
      (path = [doubledTimes, doubled] ∧ other = .direct (sampled 1 "x")) := by
  induction h with
  | here => exact Or.inl ⟨rfl, rfl⟩
  | step path c next hwalk href ih =>
      simp only [reduceCtorEq, and_false, or_false, Measurement.composite.injEq] at ih
      rcases ih with ⟨rfl, rfl⟩ | ⟨rfl, rfl⟩
      · rw [← products.mem_dependencies_iff distinctIds_products _ _ dependencies_doubledTimes,
          List.mem_pair] at href
        rcases href with rfl | rfl
        · exact Or.inr (Or.inl ⟨rfl, rfl⟩)
        · exact Or.inr (Or.inr (Or.inl ⟨rfl, rfl⟩))
      · rw [← products.mem_dependencies_iff distinctIds_products _ _ dependencies_doubled,
          List.mem_singleton] at href
        exact Or.inr (Or.inr (Or.inr ⟨rfl, href⟩))

theorem treeShaped_products : products.TreeShaped (.composite doubledTimes) := by
  intro other hreaches
  rcases products.exists_walk _ _ hreaches with ⟨path, hpath⟩
  refine ⟨path, hpath, fun path' hpath' => ?_⟩
  have hcomposites : doubled ≠ doubledTimes := by decide
  have hdirects : sampled 1 "x" ≠ sampled 2 "y" := fun h => by
    have hid := congrArg DirectMeasurement.id h
    revert hid
    decide
  have hfound := walk_products _ _ hpath'
  rcases walk_products _ _ hpath with ⟨rfl, rfl⟩ | ⟨rfl, rfl⟩ | ⟨rfl, rfl⟩ | ⟨rfl, rfl⟩
  all_goals
    simpa [hcomposites, hcomposites.symm, hdirects, hdirects.symm] using hfound

/-- The inlined formula of the product is that of the other product. -/
theorem inlines_products (inlined : Expr Decimal) (h : products.Inlines doubledTimes inlined) :
    doubledTimesInlined.tree (α := ℝ) = .ok inlined := by
  cases h with
  | formula _ tree part htree hkept hinlined =>
      rw [tree_doubledTimes, Except.ok.injEq] at htree
      subst htree
      have hy := hkept "y" (by decide)
        (fun c hc => by rw [find?_y _ (by decide)] at hc; cases hc)
      have hd := hinlined "d" (by decide) doubled find?_d
      generalize hformula : part "d" = formula at hd
      cases hd with
      | formula _ tree' part' htree' hkept' _ =>
          rw [tree_doubled, Except.ok.injEq] at htree'
          subst htree'
          have hx := hkept' "x" (by decide)
            (fun c hc => by rw [find?_x _ (by decide)] at hc; cases hc)
          rw [tree_doubledTimesInlined]
          simp [Expr.substitute, hx, hy, hformula]

/-- A product of products is smooth everywhere. -/
theorem smooth_products (inlined : Expr Decimal) (h : products.Inlines doubledTimes inlined)
    (target : String) (point : String → ℝ) : (Expr.ofDecimals inlined).Smooth target point := by
  have htree := inlines_products inlined h
  rw [tree_doubledTimesInlined, Except.ok.injEq] at htree
  subst htree
  simp [Expr.ofDecimals, Expr.map, Expr.Smooth]

/-- The law for the product of the double of one number with another, in two formulas, in one
    formula, and with all terms. -/
theorem linearized_law_products :
    (∃ inlined bound, products.Inlines doubledTimes inlined ∧
      products.Overlays (.composite doubledTimes) bound ∧
      ∃ (slope : DirectMeasurement ℝ → ℝ) (variance : DirectMeasurement ℝ → Quantity ℝ),
        (∀ d, products.Reaches (.composite doubledTimes) (.direct d) →
          directVariance d { typeB := false } = .ok (some (variance d)) ∧
            ∃ symbol, d.name.symbol? = some symbol ∧
              HasDerivAt (fun x =>
                  (Expr.ofDecimals inlined).denote (Function.update bound.value symbol x))
                (slope d) (bound.value symbol)) ∧
        (32 : ℝ) = ∑ d ∈ products.directsBelow (.composite doubledTimes),
          slope d ^ 2 * (variance d).value) ∧
    (∃ w : Quantity ℝ,
      ((Propagator.combinedVariance (.composite doubledTimesInlined) products.measurements
        { typeB := false }).run (⟨Bindings.empty, ⟨⟩⟩ : Propagator (NoMemory ℝ) ℝ)).1 =
          .ok (some w) ∧ some w = some (.number 32)) ∧
    ∃ r, everyVariance Bindings.empty (.composite doubledTimes) products.measurements
        { typeB := false } = .ok r ∧
      ((Propagator.combinedVariance (.composite doubledTimes) products.measurements
        { typeB := false }).run (⟨Bindings.empty, ⟨⟩⟩ : Propagator (NoMemory ℝ) ℝ)).1 = .ok r := by
  have hlaw := linearized_law (⟨Bindings.empty, ⟨⟩⟩ : Propagator (NoMemory ℝ) ℝ)
    products.measurements distinctIds_products (by decide) doubledTimes (by simp [products])
    { typeB := false } (DerivativeStore.answers_noMemory _ _) treeShaped_products
    (fun inlined _ hinlines _ _ _ symbol _ => smooth_products inlined hinlines symbol _)
  rcases hlaw.1 _ combinedVariance_products with ⟨hsum, hflat⟩
  rcases hsum with ⟨inlined, bound, hinlines, hrest⟩
  exact ⟨⟨inlined, bound, hinlines, hrest⟩,
    ⟨_, combinedVariance_inlined, hflat doubledTimesInlined inlined (by simp [products]) hinlines
      (inlines_products inlined hinlines) (DerivativeStore.answers_noMemory _ _) _
      combinedVariance_inlined⟩,
    ⟨_, everyVariance_products, hlaw.2 _ everyVariance_products⟩⟩

/-- A time that was found to be 1 and then to be 3. -/
noncomputable def timed : DirectMeasurement ℝ := { sampled 1 "x" with unit := "s" }

def noTime : CompositeMeasurement := ⟨⟨2⟩, ⟨"w"⟩, ⟨"x - x"⟩⟩

def noTimeSquared : CompositeMeasurement := ⟨⟨3⟩, ⟨"z"⟩, ⟨"w * w"⟩⟩

/-- The same in one formula. -/
def noTimeSquaredInlined : CompositeMeasurement := ⟨⟨4⟩, ⟨"u"⟩, ⟨"(x - x) * (x - x)"⟩⟩

/-- A time, no time, and the square of no time, in two formulas and in one. -/
noncomputable def noTimes : Graph ℝ where
  measurements := [.direct timed, .composite noTime, .composite noTimeSquared,
    .composite noTimeSquaredInlined]
  constants := Bindings.empty

/-- A power of the second. -/
noncomputable def seconds (n : ℤ) : CompoundUnit ℝ := ⟨[⟨"s", { time := 1 }, Arithmetic.one, n⟩]⟩

theorem directUnit_timed : directUnit timed = .ok (seconds 1) :=
  Outcome.eq_ok_of_toOption _ _ rfl

theorem tree_noTime : noTime.tree (α := ℝ) = .ok (.binary .sub (.symbol "x") (.symbol "x")) :=
  Outcome.eq_ok_of_toOption _ _ (by decide +kernel)

theorem tree_noTimeSquared :
    noTimeSquared.tree (α := ℝ) = .ok (.binary .mul (.symbol "w") (.symbol "w")) :=
  Outcome.eq_ok_of_toOption _ _ (by decide +kernel)

theorem tree_noTimeSquaredInlined :
    noTimeSquaredInlined.tree (α := ℝ) =
      .ok (.binary .mul (.binary .sub (.symbol "x") (.symbol "x"))
        (.binary .sub (.symbol "x") (.symbol "x"))) :=
  Outcome.eq_ok_of_toOption _ _ (by decide +kernel)

theorem symbol_timed : (Measurement.direct timed).symbol? = some "x" :=
  symbol_names "x" (by decide)

theorem symbol_noTime : (Measurement.composite (α := ℝ) noTime).symbol? = some "w" := by
  decide

theorem find?_timed (m : CompositeMeasurement) (hm : (⟨1⟩ : RecordId) ≠ m.id) :
    noTimes.find? m "x" = some (.direct timed) := by
  have hid : (Measurement.direct timed).id ≠ m.id := hm
  simp [Graph.find?, noTimes, symbol_timed, hid]

theorem find?_noTime : noTimes.find? noTimeSquared "w" = some (.composite noTime) := by
  have hid : (Measurement.composite (α := ℝ) noTime).id ≠ noTimeSquared.id := by decide
  simp [Graph.find?, noTimes, symbol_timed, symbol_noTime, hid]

theorem dependencies_noTime : noTimes.dependencies noTime = .ok [.direct timed] :=
  noTimes.dependencies_of_find? _ _ [("x", .direct timed)] tree_noTime (by decide)
    (List.forall_mem_singleton.mpr (find?_timed _ (by decide))) (by decide)

theorem dependencies_noTimeSquared :
    noTimes.dependencies noTimeSquared = .ok [.composite noTime] :=
  noTimes.dependencies_of_find? _ _ [("w", .composite noTime)] tree_noTimeSquared (by decide)
    (List.forall_mem_singleton.mpr find?_noTime) (by decide)

theorem dependencies_noTimeSquaredInlined :
    noTimes.dependencies noTimeSquaredInlined = .ok [.direct timed] :=
  noTimes.dependencies_of_find? _ _ [("x", .direct timed)] tree_noTimeSquaredInlined (by decide)
    (List.forall_mem_singleton.mpr (find?_timed _ (by decide))) (by decide)

theorem directMean_timed : ∃ x : ℝ, directMean timed = .ok (some ⟨x, seconds 1⟩) := by
  have hmean : timed.meanValue = some 2 := meanValue_sampled 1 "x"
  rw [directMean, hmean, directUnit_timed]
  exact ⟨_, rfl⟩

/-- The mean time, found or remembered. -/
theorem run_bindings_timed (m : CompositeMeasurement)
    (hdependencies : noTimes.dependencies m = .ok [.direct timed]) (fuel : ℕ)
    (path : List (RecordId × String)) (means : List (RecordId × Option (Quantity ℝ))) (x : ℝ)
    (hx : directMean timed = .ok (some ⟨x, seconds 1⟩))
    (hmeans : means.lookup ⟨1⟩ = none ∨ means.lookup ⟨1⟩ = some (some ⟨x, seconds 1⟩)) :
    ∃ means', (bindings noTimes (Evaluation.mean noTimes fuel) m).run
        ⟨path, means, (⟨⟩ : NoMemory ℝ)⟩ =
          (.ok (some (Bindings.empty.bind "x" ⟨x, seconds 1⟩)), ⟨path, means', ⟨⟩⟩) ∧
      means'.lookup ⟨1⟩ = some (some ⟨x, seconds 1⟩) := by
  rcases run_bindings_direct noTimes m timed "x" _ hdependencies symbol_timed hx fuel
    ⟨path, means, (⟨⟩ : NoMemory ℝ)⟩ hmeans with ⟨means', hrun, hknown, -⟩
  exact ⟨means', hrun, hknown⟩

/-- Squared in one formula, no time has the slope zero, without a unit. -/
theorem differentiate_noTimeSquaredInlined :
    (Expr.ofDecimals (.binary .mul (.binary .sub (.symbol "x") (.symbol "x"))
      (.binary .sub (.symbol "x") (.symbol "x")))).differentiate (α := ℝ) "x" = .number 0 := by
  simp [Expr.ofDecimals, Expr.map, Expr.differentiate, Expr.Simplified.mul, Expr.Simplified.sub,
    Expr.Simplified.add]

/-- Its square is not added to a fourth power. -/
theorem addContribution_noTimeSquaredInlined (bound : Bindings ℝ) (x y : ℝ) :
    addContribution (.ofDecimals (.binary .mul (.binary .sub (.symbol "x") (.symbol "x"))
        (.binary .sub (.symbol "x") (.symbol "x")))) bound "x" ⟨x, seconds 2⟩
        (.inUnit y (seconds 4)) =
      .error (.unitMismatch (.dimensionMismatch (seconds 4) (seconds 2))) := by
  rw [addContribution, contribution, differentiate_noTimeSquaredInlined]
  rfl

theorem scale_seconds : (seconds 2).scale = 1 := by
  simp [CompoundUnit.scale, seconds]

theorem directVariance_timed (types : UncertaintyTypes) (x : ℝ)
    (hx : directContributions timed types = some x) :
    directVariance timed types = .ok (some ⟨x, seconds 2⟩) := by
  have hsquare : (seconds 1).powInt 2 = .ok (seconds 2) := Outcome.eq_ok_of_toOption _ _ rfl
  have hvalue : Quantity.inUnit x (seconds 2) = ⟨x, seconds 2⟩ := by
    rw [Quantity.inUnit, CompoundUnit.toBase, scale_seconds, mul_one]
  rw [directVariance, directUnit_timed, hx, ← hvalue]
  simp only [bind, Except.bind, hsquare, Outcome.mapError_ok]
  rfl

/-- The formula of one measurement is the inlined formula of the other one. -/
theorem flattens_noTimes :
    noTimes.Flattens noTimeSquaredInlined noTimeSquared
      (.binary .mul (.binary .sub (.symbol "x") (.symbol "x"))
        (.binary .sub (.symbol "x") (.symbol "x"))) := by
  have hnoTime : noTimes.Inlines noTime (.binary .sub (.symbol "x") (.symbol "x")) :=
    .formula noTime _ .symbol tree_noTime (fun _ _ _ => rfl) fun symbol hsymbol c hfind => by
      have hx : symbol = "x" := by simpa [Expr.freeSymbols, Expr.collectSymbols] using hsymbol
      rw [hx, find?_timed _ (by decide)] at hfind
      cases hfind
  refine ⟨by simp [noTimes], ?_, tree_noTimeSquaredInlined⟩
  refine .formula noTimeSquared _ (fun _ => .binary .sub (.symbol "x") (.symbol "x"))
    tree_noTimeSquared (fun symbol hsymbol hnone => ?_) fun symbol hsymbol c hfind => ?_
  · have hw : symbol = "w" := by simpa [Expr.freeSymbols, Expr.collectSymbols] using hsymbol
    exact absurd (hw ▸ find?_noTime) (hnone noTime)
  · have hw : symbol = "w" := by simpa [Expr.freeSymbols, Expr.collectSymbols] using hsymbol
    rw [hw, find?_noTime, Option.some.injEq, Measurement.composite.injEq] at hfind
    exact hfind ▸ hnoTime

/-- The samples vary by 1, and nothing else is known. -/
theorem directContributions_timed :
    directContributions timed { typeB := false } = some 1 := by
  have htypeA : timed.typeAVariance = some 1 := typeAVariance_sampled 1 "x"
  simp [directContributions, htypeA]

theorem run_variance_timed (types : UncertaintyTypes) (v : ℝ)
    (hv : directContributions timed types = some v) (fuel : ℕ) (context : Context (NoMemory ℝ) ℝ) :
    (Evaluation.combinedVariance noTimes types fuel (.direct timed)).run context =
      (.ok (some ⟨v, seconds 2⟩), context) := by
  rw [Evaluation.combinedVariance, directVariance_timed types v hv]
  rfl

theorem run_everyVariance_timed (types : UncertaintyTypes) (v : ℝ)
    (hv : directContributions timed types = some v) (fuel : ℕ) (context : Context (NoMemory ℝ) ℝ) :
    (Evaluation.everyVariance noTimes types fuel (.direct timed)).run context =
      (.ok (some ⟨v, seconds 2⟩), context) := by
  rw [Evaluation.everyVariance, directVariance_timed types v hv]
  rfl

theorem evaluate_noTimeSquaredInlined (x : ℝ) :
    (Expr.ofDecimals (.binary .mul (.binary .sub (.symbol "x") (.symbol "x"))
        (.binary .sub (.symbol "x") (.symbol "x")))).evaluate
      (Bindings.empty.bind "x" ⟨x, seconds 1⟩) = .ok ⟨(x - x) * (x - x), seconds 2⟩ := rfl

theorem seconds_one_squared : (seconds 1).powInt 2 = .ok (seconds 2) :=
  Outcome.eq_ok_of_toOption _ _ rfl

theorem seconds_squared : (seconds 2).powInt 2 = .ok (seconds 4) :=
  Outcome.eq_ok_of_toOption _ _ rfl

/-- In one formula the square has no variance. -/
theorem combinedVariance_noTimeSquaredInlined :
    ((Propagator.combinedVariance (.composite noTimeSquaredInlined) noTimes.measurements
      { typeB := false }).run (⟨Bindings.empty, ⟨⟩⟩ : Propagator (NoMemory ℝ) ℝ)).1 =
        .error (.unitMismatch (.dimensionMismatch (seconds 4) (seconds 2))) := by
  rcases directMean_timed with ⟨x, hx⟩
  rcases run_bindings_timed noTimeSquaredInlined dependencies_noTimeSquaredInlined 2
    [noTimeSquaredInlined.entry] [] x hx (Or.inl rfl) with ⟨means, hrun, -⟩
  have hdepth : noTimes.depth (.composite noTimeSquaredInlined) = 3 := by decide
  have hvariance := run_variance_timed { typeB := false } 1
    directContributions_timed 2 ⟨[noTimeSquaredInlined.entry], means, ⟨⟩⟩
  have hnonzero : (⟨1, seconds 2⟩ : Quantity ℝ).isZero = false := by simp [Quantity.isZero]
  rw [fst_combinedVariance_composite _ noTimes rfl _ _ 2 hdepth, inside,
    run_compositeVariance _ _ _ _ _ _ _ _ _ _ _ tree_noTimeSquaredInlined hrun
      (evaluate_noTimeSquaredInlined x) seconds_squared dependencies_noTimeSquaredInlined,
    run_addTerms_cons_error _ _ _ _ _ _ _ _ _ _ _ symbol_timed hvariance hnonzero
      (addContribution_noTimeSquaredInlined _ _ _)]

/-- No time is what its square in two formulas is evaluated at, and the mean time is remembered. -/
theorem run_bindings_noTimeSquared (x : ℝ) (hx : directMean timed = .ok (some ⟨x, seconds 1⟩)) :
    ∃ means, (bindings noTimes (Evaluation.mean noTimes 2) noTimeSquared).run
        ⟨[noTimeSquared.entry], [], (⟨⟩ : NoMemory ℝ)⟩ =
          (.ok (some (Bindings.empty.bind "w" ⟨x - x, seconds 1⟩)),
            ⟨[noTimeSquared.entry], means, ⟨⟩⟩) ∧
      means.lookup ⟨1⟩ = some (some ⟨x, seconds 1⟩) := by
  rcases run_bindings_timed noTime dependencies_noTime 1 [noTimeSquared.entry, noTime.entry] [] x hx
    (Or.inl rfl) with ⟨means, hrun, hmeans⟩
  have hmean : (compositeMean noTimes (Evaluation.mean noTimes 1) noTime).run
      ⟨[noTimeSquared.entry, noTime.entry], [], (⟨⟩ : NoMemory ℝ)⟩ =
        (.ok (some ⟨x - x, seconds 1⟩), ⟨[noTimeSquared.entry, noTime.entry], means, ⟨⟩⟩) := by
    rw [compositeMean, tree_noTime, Outcome.run_bind, run_ofExcept]
    simp only
    rw [Outcome.run_bind, hrun]
    rfl
  have hid : noTime.id = ⟨2⟩ := rfl
  have hnew : noTimeSquared.entry.1 ≠ ⟨2⟩ := by decide
  have hconstants : noTimes.constants = Bindings.empty := rfl
  have hother : ((⟨1⟩ : RecordId) == ⟨2⟩) = false := by decide
  refine ⟨(⟨2⟩, some ⟨x - x, seconds 1⟩) :: means, ?_, ?_⟩
  · simp [bindings, dependencies_noTimeSquared, bindMeans, Evaluation.mean, Outcome.run_bind,
      run_remembered, run_within, hmean, leave, hnew, hid, hconstants, symbol_noTime]
  · rw [List.lookup_cons, hother]
    exact hmeans

/-- No time has the variance zero. -/
theorem run_variance_noTime (means : List (RecordId × Option (Quantity ℝ))) (x : ℝ)
    (hx : directMean timed = .ok (some ⟨x, seconds 1⟩))
    (hmeans : means.lookup ⟨1⟩ = some (some ⟨x, seconds 1⟩)) :
    ∃ after, (Evaluation.combinedVariance noTimes { typeB := false } 2 (.composite noTime)).run
        ⟨[noTimeSquared.entry], means, (⟨⟩ : NoMemory ℝ)⟩ =
      (.ok (some ⟨0, seconds 2⟩), after) := by
  rcases run_bindings_timed noTime dependencies_noTime 1 [noTimeSquared.entry, noTime.entry] means x
    hx (Or.inr hmeans) with ⟨means', hrun, -⟩
  have hslope : (Expr.ofDecimals (.binary .sub (.symbol "x") (.symbol "x"))).differentiate (α := ℝ)
      "x" = .number 0 := by
    simp [Expr.ofDecimals, Expr.map, Expr.differentiate, Expr.Simplified.sub]
  have hterm : addContribution (.ofDecimals (.binary .sub (.symbol "x") (.symbol "x")))
      (Bindings.empty.bind "x" ⟨x, seconds 1⟩) "x" ⟨1, seconds 2⟩
        (.inUnit Arithmetic.zero (seconds 2)) = .ok ⟨0, seconds 2⟩ := by
    have hsquare : (Quantity.number (0 : ℝ)).powInt 2 = .ok (.number (0 * 0)) := by
      rw [← RealScalar.powInt_two 0]
      rfl
    have hsum : (⟨0, seconds 2⟩ : Quantity ℝ) =
        ⟨(Quantity.inUnit Arithmetic.zero (seconds 2)).value + 0 * 0 * 1, seconds 2⟩ := by
      simp [Quantity.inUnit, CompoundUnit.toBase]
    rw [hsum]
    exact (addContribution_eq_ok _ _ _ _ _ _).mpr
      ⟨_, _, ⟨0 * 0 * 1, seconds 2⟩, hslope ▸ rfl, hsquare, rfl, rfl⟩
  have hnew : ¬ [noTimeSquared.entry].any (·.1 = noTime.id) = true := by decide
  have hnonzero : (⟨1, seconds 2⟩ : Quantity ℝ).isZero = false := by simp [Quantity.isZero]
  have hbody : (compositeVariance noTimes (Evaluation.mean noTimes 1)
      (Evaluation.combinedVariance noTimes { typeB := false } 1) noTime).run
        ⟨[noTimeSquared.entry, noTime.entry], means, (⟨⟩ : NoMemory ℝ)⟩ =
          (.ok (some ⟨0, seconds 2⟩),
            ⟨[noTimeSquared.entry, noTime.entry], means', ⟨⟩⟩) := by
    rw [run_compositeVariance _ _ _ _ _ _ _ _ ⟨x - x, seconds 1⟩ _ _ tree_noTime hrun rfl
        seconds_one_squared dependencies_noTime,
      run_addTerms_cons _ _ _ _ _ _ _ _ _ _ _ symbol_timed
        (run_variance_timed { typeB := false } 1 directContributions_timed _ _) hnonzero hterm]
    rfl
  refine ⟨⟨[noTimeSquared.entry], means', ⟨⟩⟩, ?_⟩
  rw [Evaluation.combinedVariance, run_within, if_neg hnew]
  exact congrArg (fun ending => (ending.1, leave ending.2)) hbody

/-- In two formulas it has one: no time has no variance, which is passed over. -/
theorem combinedVariance_noTimeSquared :
    ∃ v, ((Propagator.combinedVariance (.composite noTimeSquared) noTimes.measurements
      { typeB := false }).run (⟨Bindings.empty, ⟨⟩⟩ : Propagator (NoMemory ℝ) ℝ)).1 =
        .ok (some v) := by
  rcases directMean_timed with ⟨x, hx⟩
  rcases run_bindings_noTimeSquared x hx with ⟨means, hrun, hmeans⟩
  rcases run_variance_noTime means x hx hmeans with ⟨after, hvariance⟩
  have hdepth : noTimes.depth (.composite noTimeSquared) = 3 := by decide
  have hzero : (⟨0, seconds 2⟩ : Quantity ℝ).isZero = true := by simp [Quantity.isZero]
  rw [fst_combinedVariance_composite _ noTimes rfl _ _ 2 hdepth, inside,
    run_compositeVariance _ _ _ _ _ _ _ _ ⟨(x - x) * (x - x), seconds 2⟩ _ _ tree_noTimeSquared hrun
      rfl seconds_squared dependencies_noTimeSquared,
    run_addTerms_passed _ _ _ _ _ _ _ _ _ _ symbol_noTime hvariance hzero]
  exact ⟨_, rfl⟩

/-- Without uncertainties there is one in one formula as well. -/
theorem combinedVariance_exact :
    ∃ v, ((Propagator.combinedVariance (.composite noTimeSquaredInlined) noTimes.measurements
      { typeA := false, typeB := false }).run
        (⟨Bindings.empty, ⟨⟩⟩ : Propagator (NoMemory ℝ) ℝ)).1 = .ok (some v) := by
  rcases directMean_timed with ⟨x, hx⟩
  rcases run_bindings_timed noTimeSquaredInlined dependencies_noTimeSquaredInlined 2
    [noTimeSquaredInlined.entry] [] x hx (Or.inl rfl) with ⟨means, hrun, -⟩
  have hdepth : noTimes.depth (.composite noTimeSquaredInlined) = 3 := by decide
  have hzero : (⟨Arithmetic.zero, seconds 2⟩ : Quantity ℝ).isZero = true := by simp [Quantity.isZero]
  rw [fst_combinedVariance_composite _ noTimes rfl _ _ 2 hdepth, inside,
    run_compositeVariance _ _ _ _ _ _ _ _ _ _ _ tree_noTimeSquaredInlined hrun
      (evaluate_noTimeSquaredInlined x) seconds_squared dependencies_noTimeSquaredInlined,
    run_addTerms_passed _ _ _ _ _ _ _ _ _ _ symbol_timed
      (run_variance_timed { typeA := false, typeB := false } _ rfl _ _) hzero]
  exact ⟨_, rfl⟩

/-- But there is none with all terms. -/
theorem everyVariance_exact :
    everyVariance Bindings.empty (.composite noTimeSquaredInlined) noTimes.measurements
      { typeA := false, typeB := false } =
        .error (.unitMismatch (.dimensionMismatch (seconds 4) (seconds 2))) := by
  rcases directMean_timed with ⟨x, hx⟩
  rcases run_bindings_timed noTimeSquaredInlined dependencies_noTimeSquaredInlined 2
    [noTimeSquaredInlined.entry] [] x hx (Or.inl rfl) with ⟨means, hrun, -⟩
  have hdepth : noTimes.depth (.composite noTimeSquaredInlined) = 3 := by decide
  rw [everyVariance_composite Bindings.empty noTimes rfl _ _ 2 hdepth, inside,
    run_compositeEveryVariance _ _ _ _ _ _ _ _ _ _ _ tree_noTimeSquaredInlined hrun
      (evaluate_noTimeSquaredInlined x) seconds_squared dependencies_noTimeSquaredInlined,
    run_addEveryTerm_cons_error _ _ _ _ _ _ _ _ _ _ _ symbol_timed
      (run_everyVariance_timed { typeA := false, typeB := false } _ rfl _ _)
      (addContribution_noTimeSquaredInlined _ _ _)]

/-- The walks from the square in two formulas. -/
theorem walk_noTimes (path : List CompositeMeasurement) (other : Measurement ℝ)
    (h : noTimes.Walk (.composite noTimeSquared) path other) :
    (path = [] ∧ other = .composite noTimeSquared) ∨
      (path = [noTimeSquared] ∧ other = .composite noTime) ∨
      (path = [noTimeSquared, noTime] ∧ other = .direct timed) := by
  have hids : noTimes.DistinctIds := by
    change (noTimes.measurements.map Measurement.id).Nodup
    decide
  induction h with
  | here => exact Or.inl ⟨rfl, rfl⟩
  | step path c next hwalk href ih =>
      simp only [reduceCtorEq, and_false, or_false, Measurement.composite.injEq] at ih
      rcases ih with ⟨rfl, rfl⟩ | ⟨rfl, rfl⟩
      · rw [← noTimes.mem_dependencies_iff hids _ _ dependencies_noTimeSquared,
          List.mem_singleton] at href
        exact Or.inr (Or.inl ⟨rfl, href⟩)
      · rw [← noTimes.mem_dependencies_iff hids _ _ dependencies_noTime,
          List.mem_singleton] at href
        exact Or.inr (Or.inr ⟨rfl, href⟩)

theorem treeShaped_noTimes : noTimes.TreeShaped (.composite noTimeSquared) := by
  intro other hreaches
  rcases noTimes.exists_walk _ _ hreaches with ⟨path, hpath⟩
  refine ⟨path, hpath, fun path' hpath' => ?_⟩
  have hcomposites : noTime ≠ noTimeSquared := by decide
  have hfound := walk_noTimes _ _ hpath'
  rcases walk_noTimes _ _ hpath with ⟨rfl, rfl⟩ | ⟨rfl, rfl⟩ | ⟨rfl, rfl⟩
  all_goals
    simpa [hcomposites, hcomposites.symm] using hfound

/-- The square of no time has a variance in two formulas and none in one, and without
    uncertainties it has one in one formula, but none with all terms. -/
theorem linearized_law_incomplete :
    (noTimes.measurements.map Measurement.id).Nodup ∧
      (noTimes.measurements.filterMap Measurement.symbol?).Nodup ∧
      noTimes.TreeShaped (.composite noTimeSquared) ∧
      ∃ inlined, noTimes.Inlines noTimeSquared inlined ∧
        noTimeSquaredInlined.tree (α := ℝ) = .ok inlined ∧
        (∀ symbol point, (Expr.ofDecimals (α := ℝ) inlined).Smooth symbol point) ∧
        (∃ v, ((Propagator.combinedVariance (.composite noTimeSquared) noTimes.measurements
          { typeB := false }).run (⟨Bindings.empty, ⟨⟩⟩ : Propagator (NoMemory ℝ) ℝ)).1 =
            .ok (some v)) ∧
        ((Propagator.combinedVariance (.composite noTimeSquaredInlined) noTimes.measurements
          { typeB := false }).run (⟨Bindings.empty, ⟨⟩⟩ : Propagator (NoMemory ℝ) ℝ)).1 =
            .error (.unitMismatch (.dimensionMismatch (seconds 4) (seconds 2))) ∧
        (∃ v, ((Propagator.combinedVariance (.composite noTimeSquaredInlined) noTimes.measurements
          { typeA := false, typeB := false }).run
            (⟨Bindings.empty, ⟨⟩⟩ : Propagator (NoMemory ℝ) ℝ)).1 = .ok (some v)) ∧
        everyVariance Bindings.empty (.composite noTimeSquaredInlined) noTimes.measurements
          { typeA := false, typeB := false } =
            .error (.unitMismatch (.dimensionMismatch (seconds 4) (seconds 2))) :=
  ⟨by decide, by decide, treeShaped_noTimes, _, flattens_noTimes.inlines,
    flattens_noTimes.tree_eq, by simp [Expr.ofDecimals, Expr.map, Expr.Smooth],
    combinedVariance_noTimeSquared, combinedVariance_noTimeSquaredInlined, combinedVariance_exact,
    everyVariance_exact⟩

end Example

end Propagator

end Metrology
