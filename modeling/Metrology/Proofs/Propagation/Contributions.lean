import Metrology.Proofs.Propagation.LinearizedLaw
import Metrology.Proofs.Unit.RealScale

/-!
# Contributions of either type

A variance has a part that comes from samples and a part that comes from limits of
instruments, and either part can be left out. On the real numbers the parts add up,
through any graph: they do at a direct measurement, whose variance is their sum, and
a composite measurement multiplies the variances of its dependencies by squares that
do not depend on the choice, because the means do not.

What does depend on the choice is which dependencies are passed over, as those without
variance are. No part is negative, so what is passed over with both parts is passed
over with either. And what is passed over with one part only contributes nothing then,
although it would have been multiplied without a failure, since with both parts it was.

## Main definitions

* `UncertaintyTypes.chosen`: The sum of the parts that are chosen.
* `Evaluation.Splits`: Variances whose parts add up.

## Theorems

* `Statistics.varianceOfMean_nonneg`, `DirectMeasurement.typeBVariance_nonneg`: Neither
  part of a direct measurement's variance is negative.
* `Evaluation.directVariance_splits`, `Evaluation.addTerms_splits`,
  `Evaluation.combinedVariance_splits`: The parts add up at every step.
* `Propagator.variance_adds_up`: The parts add up.
-/

namespace Metrology

section Parts

/-- One more sample in moments of real numbers. -/
theorem Statistics.Moments.deviation_add (m : Moments ℝ) (x : ℝ) :
    (m.add x).deviation = m.deviation +
      (x - m.mean) * (x - (m.mean + (x - m.mean) / ((m.count + 1 : ℕ) : ℝ))) := by
  rw [← RealScalar.ofNat_eq]
  rfl

/-- Squared deviations do not become negative. -/
theorem Statistics.Moments.deviation_nonneg (samples : List ℝ) :
    ∀ m : Moments ℝ, 0 ≤ m.deviation → 0 ≤ (samples.foldl Moments.add m).deviation := by
  induction samples with
  | nil => exact fun m h => h
  | cons x rest ih =>
      intro m h
      refine ih (m.add x) ?_
      have hcount : (0 : ℝ) < ((m.count + 1 : ℕ) : ℝ) := Nat.cast_pos.mpr m.count.succ_pos
      have hterm : (x - m.mean) * (x - (m.mean + (x - m.mean) / ((m.count + 1 : ℕ) : ℝ))) =
          (x - m.mean) ^ 2 * (m.count / ((m.count + 1 : ℕ) : ℝ)) := by
        field_simp
        push_cast
        ring
      rw [deviation_add, hterm]
      exact add_nonneg h (mul_nonneg (sq_nonneg _) (div_nonneg (Nat.cast_nonneg _) hcount.le))

theorem Statistics.sampleVariance_nonneg (samples : List ℝ) (v : ℝ)
    (h : sampleVariance samples = some v) : 0 ≤ v := by
  unfold sampleVariance at h
  split at h
  · cases h
  · rw [← Option.some.inj h, RealScalar.zero_eq]
  · rw [← Option.some.inj h, RealScalar.ofNat_eq]
    refine div_nonneg (Moments.deviation_nonneg samples _ ?_) (Nat.cast_nonneg _)
    exact RealScalar.zero_eq.ge

/-- The part that comes from samples is not negative. -/
theorem Statistics.varianceOfMean_nonneg (samples : List ℝ) (v : ℝ)
    (h : varianceOfMean samples = some v) : 0 ≤ v := by
  rw [varianceOfMean, Option.map_eq_some_iff] at h
  rcases h with ⟨w, hw, rfl⟩
  rw [RealScalar.ofNat_eq]
  exact div_nonneg (sampleVariance_nonneg samples w hw) (Nat.cast_nonneg _)

/-- The part that comes from limits is not negative. -/
theorem DirectMeasurement.typeBVariance_nonneg (m : DirectMeasurement ℝ) : 0 ≤ m.typeBVariance := by
  have hsum : ∀ (us : List ℝ) (total : ℝ), 0 ≤ total →
      0 ≤ (us.map fun u => u * u).foldl (· + ·) total := by
    intro us
    induction us with
    | nil => exact fun total h => h
    | cons u rest ih => exact fun total h => ih _ (add_nonneg h (mul_self_nonneg u))
  exact hsum _ _ RealScalar.zero_eq.ge

end Parts

/-- The sum of the parts that are chosen. -/
noncomputable def UncertaintyTypes.chosen (types : UncertaintyTypes) (a b : ℝ) : ℝ :=
  (if types.typeA then a else 0) + (if types.typeB then b else 0)

namespace UncertaintyTypes

theorem chosen_zero (types : UncertaintyTypes) : types.chosen 0 0 = 0 := by
  simp only [chosen, ite_self, add_zero]

/-- What is multiplied and added up may be chosen before or after. -/
theorem chosen_add_mul (types : UncertaintyTypes) (a b c d k : ℝ) :
    types.chosen (a + k * c) (b + k * d) = types.chosen a b + k * types.chosen c d := by
  rcases types with ⟨_ | _, _ | _⟩ <;>
    simp only [chosen, Bool.false_eq_true, if_false, if_true] <;> ring

theorem chosen_mul (types : UncertaintyTypes) (a b k : ℝ) :
    types.chosen (a * k) (b * k) = types.chosen a b * k := by
  rcases types with ⟨_ | _, _ | _⟩ <;>
    simp only [chosen, Bool.false_eq_true, if_false, if_true] <;> ring

end UncertaintyTypes

namespace Evaluation

/-- Variances, one for each choice of parts, that add up: where there is one with both
    parts, there is one with every choice, in the same unit, and it ends in the same
    context. -/
def Splits (x : UncertaintyTypes → Evaluation (NoMemory ℝ) ℝ (Option (Quantity ℝ))) : Prop :=
  ∀ context v next, (x {}).run context = (.ok (some v), next) →
    ∃ a b, 0 ≤ a ∧ 0 ≤ b ∧
      ∀ types, (x types).run context = (.ok (some ⟨types.chosen a b, v.unit⟩), next)

/-- A direct measurement has the parts that its samples and its limits give. -/
theorem directContributions_eq (m : DirectMeasurement ℝ) (sum : ℝ)
    (h : directContributions m {} = some sum) :
    ∃ a, 0 ≤ a ∧ ∀ types, directContributions m types = some (types.chosen a m.typeBVariance) := by
  cases htypeA : m.typeAVariance with
  | none => simp [directContributions, htypeA] at h
  | some a =>
      refine ⟨a, Statistics.varianceOfMean_nonneg m.values a htypeA, fun types => ?_⟩
      rcases types with ⟨_ | _, _ | _⟩ <;>
        simp [directContributions, htypeA, UncertaintyTypes.chosen]

theorem directVariance_splits (m : DirectMeasurement ℝ) :
    Splits fun types => ofExcept (directVariance m types) := by
  intro context v next h
  rw [run_ofExcept] at h
  have hvariance : directVariance m {} = .ok (some v) := congrArg Prod.fst h
  have hnext : context = next := congrArg Prod.snd h
  rw [directVariance, Outcome.bind_eq_ok] at hvariance
  rcases hvariance with ⟨unit, hunit, hvariance⟩
  cases hsum : directContributions m {} with
  | none => simp only [hsum, Outcome.pure_eq_ok, reduceCtorEq] at hvariance
  | some sum =>
      simp only [hsum, Outcome.bind_eq_ok, Outcome.mapError_eq_ok, Outcome.pure_eq_ok,
        Option.some.injEq] at hvariance
      rcases hvariance with ⟨square, hsquare, rfl⟩
      rcases directContributions_eq m sum hsum with ⟨a, ha, hchosen⟩
      have hwell := CompoundUnit.read_wellFormed _ unit ((directUnit_eq_ok m unit).mp hunit)
      have hsquared := CompoundUnit.powInt_wellFormed unit square 2 hwell hsquare
      have hscale := (square.scale_pos hsquared).le
      refine ⟨a * square.scale, m.typeBVariance * square.scale, mul_nonneg ha hscale,
        mul_nonneg m.typeBVariance_nonneg hscale, fun types => ?_⟩
      rw [run_ofExcept, ← hnext, directVariance, hunit, types.chosen_mul]
      simp only [hchosen, hsquare, Outcome.mapError_ok, bind, Except.bind]
      rfl

/-- The factor that a contribution is multiplied by depends on neither the variance nor
    the total. -/
theorem addContribution_factor (tree : Expr ℝ) (bound : Bindings ℝ) (symbol : String)
    (variance total next : Quantity ℝ)
    (h : addContribution tree bound symbol variance total = .ok next) :
    ∃ k, 0 ≤ k ∧ ∀ v t, addContribution tree bound symbol ⟨v, variance.unit⟩ ⟨t, total.unit⟩ =
      .ok ⟨t + k * v, total.unit⟩ := by
  rw [addContribution_eq_ok] at h
  rcases h with ⟨slope, square, product, hslope, hsquare, hproduct, hnext⟩
  have hvalue := (Quantity.powInt_eq_ok _ _ _).mp hsquare
  rw [RealScalar.powInt_two] at hvalue
  refine ⟨square.value, hvalue.1 ▸ mul_self_nonneg slope.value, fun v t => ?_⟩
  rw [addContribution_eq_ok]
  refine ⟨slope, square, ⟨square.value * v, product.unit⟩, hslope, hsquare, ?_, ?_⟩
  · exact (Quantity.mul_eq_ok _ _ _).mpr ⟨rfl, ((Quantity.mul_eq_ok _ _ _).mp hproduct).2⟩
  · exact (Quantity.add_eq_ok _ _ _).mpr ⟨((Quantity.add_eq_ok _ _ _).mp hnext).1, rfl⟩

/-- A dependency adds a multiple of its variance, also where it is passed over. -/
theorem run_addTerms_scaled (tree : Expr ℝ) (bound : Bindings ℝ)
    (varianceOf : Measurement ℝ → Evaluation (NoMemory ℝ) ℝ (Option (Quantity ℝ)))
    (dependency : Measurement ℝ) (rest : List (Measurement ℝ)) (symbol : String)
    (unit unit' : CompoundUnit ℝ) (v t k : ℝ) (context after : Context (NoMemory ℝ) ℝ)
    (hsymbol : dependency.symbol? = some symbol)
    (hvariance : (varianceOf dependency).run context = (.ok (some ⟨v, unit'⟩), after))
    (hadds : ∀ v t, addContribution tree bound symbol ⟨v, unit'⟩ ⟨t, unit⟩ =
      .ok ⟨t + k * v, unit⟩) :
    (addTerms tree bound varianceOf (dependency :: rest) ⟨t, unit⟩).run context =
      (addTerms tree bound varianceOf rest ⟨t + k * v, unit⟩).run after := by
  by_cases hzero : v = 0
  · rw [hzero, mul_zero, add_zero]
    refine run_addTerms_passed _ _ _ _ _ symbol _ _ _ _ hsymbol hvariance ?_
    rw [Quantity.isZero, RealScalar.isZero_iff, hzero]
  · refine run_addTerms_cons _ _ _ _ _ symbol _ _ _ _ _ hsymbol hvariance ?_ (hadds v t)
    rw [← Bool.not_eq_true, Quantity.isZero, RealScalar.isZero_iff]
    exact hzero

/-- Contributions whose parts add up are added to totals whose parts add up. What is
    passed over with both parts has neither. -/
theorem addTerms_splits (tree : Expr ℝ) (bound : Bindings ℝ) (unit : CompoundUnit ℝ)
    (varianceOf : UncertaintyTypes → Measurement ℝ →
      Evaluation (NoMemory ℝ) ℝ (Option (Quantity ℝ)))
    (dependencies : List (Measurement ℝ))
    (hvariance : ∀ dependency, Splits fun types => varianceOf types dependency) :
    ∀ a b, 0 ≤ a → 0 ≤ b → Splits fun types =>
      addTerms tree bound (varianceOf types) dependencies ⟨types.chosen a b, unit⟩ := by
  induction dependencies with
  | nil =>
      intro a b ha hb context v next h
      cases h
      exact ⟨a, b, ha, hb, fun types => rfl⟩
  | cons dependency rest ih =>
      intro a b ha hb context v next h
      cases hsymbol : dependency.symbol? with
      | none =>
          simp only [addTerms_unnamed _ _ _ dependency rest _ hsymbol] at h ⊢
          exact ih a b ha hb context v next h
      | some symbol =>
          rcases run_addTerms_cons_eq_ok _ _ _ _ _ symbol _ _ _ _ hsymbol h with
            ⟨w, after, hw, hterm⟩
          rcases hvariance dependency context w after hw with ⟨c, d, hc, hd, hparts⟩
          have hsum : w = ⟨c + d, w.unit⟩ := by
            have hboth := (hw.symm.trans (hparts {}))
            exact Option.some.inj (Except.ok.inj (congrArg Prod.fst hboth))
          rcases hterm with ⟨hzero, hrest⟩ | ⟨-, total, htotal, hrest⟩
          · -- Without variance there is neither part, so every choice passes it over.
            rw [Quantity.isZero, RealScalar.isZero_iff, hsum] at hzero
            rcases (add_eq_zero_iff_of_nonneg hc hd).mp hzero with ⟨rfl, rfl⟩
            rcases ih a b ha hb after v next hrest with ⟨p, q, hp, hq, hruns⟩
            refine ⟨p, q, hp, hq, fun types => ?_⟩
            rw [← hruns types]
            refine run_addTerms_passed _ _ _ _ _ symbol _ _ _ _ hsymbol (hparts types) ?_
            rw [Quantity.isZero, RealScalar.isZero_iff, types.chosen_zero]
          · -- What is added to every part of the total is the same multiple.
            rcases addContribution_factor tree bound symbol w _ total htotal with ⟨k, hk, hadds⟩
            have hnext : total = ⟨({} : UncertaintyTypes).chosen (a + k * c) (b + k * d), unit⟩ := by
              have hadded := hadds (c + d) (({} : UncertaintyTypes).chosen a b)
              rw [← hsum, htotal] at hadded
              rw [UncertaintyTypes.chosen_add_mul]
              exact Except.ok.inj hadded
            rw [hnext] at hrest
            rcases ih _ _ (add_nonneg ha (mul_nonneg hk hc)) (add_nonneg hb (mul_nonneg hk hd)) after v
              next hrest with ⟨p, q, hp, hq, hruns⟩
            refine ⟨p, q, hp, hq, fun types => ?_⟩
            have hrun := run_addTerms_scaled tree bound (varianceOf types) dependency rest symbol unit
              w.unit (types.chosen c d) (types.chosen a b) k context after hsymbol (hparts types) hadds
            rw [← types.chosen_add_mul] at hrun
            exact hrun.trans (hruns types)

/-- A composite measurement has the parts that its dependencies have. -/
theorem compositeVariance_splits (g : Graph ℝ) (m : CompositeMeasurement)
    (meanOf : Measurement ℝ → Evaluation (NoMemory ℝ) ℝ (Option (Quantity ℝ)))
    (varianceOf : UncertaintyTypes → Measurement ℝ →
      Evaluation (NoMemory ℝ) ℝ (Option (Quantity ℝ)))
    (hvariance : ∀ dependency, Splits fun types => varianceOf types dependency) :
    Splits fun types => compositeVariance g meanOf (varianceOf types) m := by
  intro context v next h
  rcases run_compositeVariance_eq_ok g m meanOf _ context next v h with
    ⟨tree, bound, middle, mean, unit, dependencies, htree, hbound, hmean, hunit, hdependencies, hsum⟩
  have hzero : ∀ types : UncertaintyTypes,
      (.inUnit Arithmetic.zero unit : Quantity ℝ) = ⟨types.chosen 0 0, unit⟩ := by
    intro types
    have hvalue : unit.toBase Arithmetic.zero = 0 := by
      rw [CompoundUnit.toBase, RealScalar.zero_eq, zero_mul]
    rw [Quantity.inUnit, hvalue, types.chosen_zero]
  rw [hzero {}] at hsum
  rcases addTerms_splits (.ofDecimals tree) bound unit varianceOf dependencies hvariance 0 0 le_rfl
    le_rfl middle v next hsum with ⟨a, b, ha, hb, hruns⟩
  refine ⟨a, b, ha, hb, fun types => ?_⟩
  rw [run_compositeVariance g m meanOf _ context middle tree bound mean unit dependencies htree
    hbound hmean hunit hdependencies, hzero types]
  exact hruns types

theorem within_splits (m : CompositeMeasurement)
    (x : UncertaintyTypes → Evaluation (NoMemory ℝ) ℝ (Option (Quantity ℝ))) (hx : Splits x) :
    Splits fun types => within m (x types) := by
  intro context v next h
  simp only [run_within] at h ⊢
  by_cases hpath : context.path.any (·.1 = m.id) = true
  · rw [if_pos hpath] at h
    cases h
  · rw [if_neg hpath] at h
    have hbody : (x {}).run { context with path := context.path ++ [m.entry] } =
        (.ok (some v), ((x {}).run { context with path := context.path ++ [m.entry] }).2) :=
      Prod.ext (Prod.mk.inj h).1 rfl
    rcases hx _ v _ hbody with ⟨a, b, ha, hb, hruns⟩
    refine ⟨a, b, ha, hb, fun types => ?_⟩
    rw [if_neg hpath, hruns types]
    exact Prod.ext rfl (Prod.mk.inj h).2

/-- The parts of a variance add up in every graph. -/
theorem combinedVariance_splits (g : Graph ℝ) (fuel : ℕ) :
    ∀ m, Splits fun types => combinedVariance g types fuel m := by
  induction fuel with
  | zero =>
      intro m
      cases m with
      | direct m => exact directVariance_splits m
      | composite m =>
          intro context v next h
          simp only [combinedVariance, run_cycle] at h
          cases h
  | succ fuel ih =>
      intro m
      cases m with
      | direct m => exact directVariance_splits m
      | composite m => exact within_splits m _ (compositeVariance_splits g m _ _ ih)

end Evaluation

namespace Propagator

open Evaluation

variable {σ : Type} [DerivativeStore σ ℝ]

/-- If a measurement has a variance with contributions of both types, it has one with those
    of either type and with none, all in the same unit. Neither of the two is negative, they
    add up to the whole, and without contributions the variance is zero. The stores need not
    be the same, as long as they answer what the measurement asks. -/
theorem variance_adds_up (p : Propagator σ ℝ) (all : List (Measurement ℝ))
    (hids : (all.map Measurement.id).Nodup) (m : Measurement ℝ)
    (hstore : DerivativeStore.Answers ((p.graph all).Asks m) p.store) (v : Quantity ℝ)
    (h : ((Propagator.combinedVariance m all { typeA := true, typeB := true }).run p).1 =
      .ok (some v)) :
    ∃ a b : ℝ, 0 ≤ a ∧ 0 ≤ b ∧ v.value = a + b ∧
      ∀ p' : Propagator σ ℝ, p'.constants = p.constants →
        DerivativeStore.Answers ((p.graph all).Asks m) p'.store →
          ((Propagator.combinedVariance m all { typeA := true, typeB := false }).run p').1 =
            .ok (some ⟨a, v.unit⟩) ∧
          ((Propagator.combinedVariance m all { typeA := false, typeB := true }).run p').1 =
            .ok (some ⟨b, v.unit⟩) ∧
          ((Propagator.combinedVariance m all { typeA := false, typeB := false }).run p').1 =
            .ok (some ⟨0, v.unit⟩) := by
  rw [combinedVariance_noMemory p all hids m _ hstore, Propagator.combinedVariance, run_ask] at h
  rcases combinedVariance_splits (p.graph all) ((p.graph all).depth m) m (.fresh ⟨⟩) v _
    (Prod.ext h rfl) with ⟨a, b, ha, hb, hruns⟩
  have hvalue : v = ⟨a + b, v.unit⟩ := by
    have hboth := congrArg Prod.fst (hruns {})
    exact Option.some.inj (Except.ok.inj (h.symm.trans hboth))
  refine ⟨a, b, ha, hb, congrArg Quantity.value hvalue, fun p' hsame hstore' => ?_⟩
  have hrun : ∀ types : UncertaintyTypes, ((Propagator.combinedVariance m all types).run p').1 =
      .ok (some ⟨types.chosen a b, v.unit⟩) := by
    intro types
    rw [combinedVariance_noMemory p' all hids m types (hsame ▸ hstore'), hsame,
      Propagator.combinedVariance, run_ask]
    exact congrArg Prod.fst (hruns types)
  refine ⟨?_, ?_, ?_⟩
  · rw [hrun, UncertaintyTypes.chosen, if_pos rfl, if_neg (by decide), add_zero]
  · rw [hrun, UncertaintyTypes.chosen, if_neg (by decide), if_pos rfl, zero_add]
  · rw [hrun, UncertaintyTypes.chosen, if_neg (by decide), if_neg (by decide), add_zero]

section Example

/-- A number that was found to be 1 and then to be 3, with a limit of 2. -/
noncomputable def limited : DirectMeasurement ℝ :=
  { sampled 1 "x" with typeB := [⟨"2", .none⟩] }

theorem contributions_limited : directContributions limited {} = some 5 := by
  have htypeA : limited.typeAVariance = some 1 := by
    have hone : (Arithmetic.ofNat 1 : ℝ) = 1 := RealScalar.one_eq
    have htwo : (Arithmetic.ofNat 2 : ℝ) = 2 := RealScalar.ofNat_eq 2
    simp [DirectMeasurement.typeAVariance, limited, sampled, Statistics.varianceOfMean,
      Statistics.sampleVariance, Statistics.Moments.add, hone, htwo]
    norm_num
  have hread : Quantity.read (α := ℝ) "2" = .ok (.number 2) := by
    have hnumeral : Numeral.read? (String.ofList ((Text.trimChars "2".toList).take
        (QuantityReader.numberLength (Text.trimChars "2".toList)))) =
          some (.finite false ⟨2, 0⟩) := by decide
    have hunit : CompoundUnit.read (α := ℝ) (Text.trim (String.ofList ((Text.trimChars
        "2".toList).drop (QuantityReader.numberLength (Text.trimChars "2".toList))))) = .ok .none :=
      Outcome.eq_ok_of_toOption _ _ (by decide)
    have htwo : (Arithmetic.ofSigned false ⟨2, 0⟩ : ℝ) = 2 := RealScalar.ofNat_eq 2
    rw [Quantity.read]
    simp only [hnumeral]
    rw [Quantity.withUnit, hunit, htwo]
    exact congrArg Except.ok (inUnit_none 2)
  have hlimit : TypeBEntry.standardUncertainty? ⟨"2", .none⟩ "" = some (2 : ℝ) := by
    have hblank : Text.isBlankText "2" = false := by decide
    have hplain : (Quantity.number (2 : ℝ)).isPlain = true := rfl
    have hvalue : (Quantity.number (2 : ℝ)).value = 2 := rfl
    rw [TypeBEntry.standardUncertainty?, TypeBEntry.magnitude?]
    simp [hblank, hread, isZero_number (2 : ℝ) two_ne_zero, hplain, hvalue,
      Distribution.coefficient]
  have htypeB : limited.typeBVariance = 4 := by
    have hunit : limited.unit = "" := rfl
    rw [DirectMeasurement.typeBVariance, hunit]
    simp [limited, maxTypeB, hlimit]
    norm_num
  simp [directContributions, htypeA, htypeB]
  norm_num

/-- The measurement with its double. -/
noncomputable def limitedGraph : Graph ℝ where
  measurements := [.direct limited, .composite doubled]
  constants := Bindings.empty

theorem symbol_limited : (Measurement.direct limited).symbol? = some "x" := symbol_x

theorem dependencies_limited : limitedGraph.dependencies doubled = .ok [.direct limited] := by
  have hfind : limitedGraph.find? doubled "x" = some (.direct limited) := by
    have hid : (Measurement.direct limited).id ≠ doubled.id := by decide
    simp [Graph.find?, limitedGraph, symbol_limited, hid]
  exact limitedGraph.dependencies_of_find? _ _ [("x", .direct limited)] tree_doubled (by decide)
    (List.forall_mem_singleton.mpr hfind) (by decide)

theorem run_bindings_limited (fuel : ℕ) :
    ∃ next, (bindings limitedGraph (Evaluation.mean limitedGraph fuel) doubled).run
      (inside doubled (⟨⟩ : NoMemory ℝ)) =
        (.ok (some (Bindings.empty.bind "x" (.number 2))), next) := by
  have hmean : directMean limited = .ok (some (.number 2)) := directMean_sampled 1 "x"
  rcases run_bindings_direct limitedGraph doubled limited "x" _ dependencies_limited symbol_limited
    hmean fuel (inside doubled (⟨⟩ : NoMemory ℝ)) (Or.inl rfl) with ⟨means, hrun, -⟩
  exact ⟨_, hrun⟩

theorem run_variance_limited (fuel : ℕ) (context : Context (NoMemory ℝ) ℝ) :
    (Evaluation.combinedVariance limitedGraph {} fuel (.direct limited)).run context =
      (.ok (some (.number 5)), context) := by
  have hunit : directUnit limited = .ok .none := directUnit_sampled 1 "x"
  have hvariance : directVariance limited {} = .ok (some (.number 5)) := by
    rw [directVariance, hunit, contributions_limited]
    exact congrArg (fun q => Except.ok (some q)) (inUnit_none 5)
  cases fuel <;> rw [Evaluation.combinedVariance, hvariance] <;> rfl

/-- The variance of the double is 4 · 5, of which 4 · 1 comes from the samples and 4 · 4 from
    the limit. -/
theorem combinedVariance_limited :
    ((Propagator.combinedVariance (.composite doubled) limitedGraph.measurements {}).run
      (⟨Bindings.empty, ⟨⟩⟩ : Propagator (NoMemory ℝ) ℝ)).1 = .ok (some (.number 20)) := by
  have hdepth : limitedGraph.depth (.composite doubled) = 1 := by decide
  have hsum : (0 : ℝ) + 2 * 2 * 5 = 20 := by norm_num
  rcases run_bindings_limited 0 with ⟨next, hbound⟩
  rw [fst_combinedVariance_composite _ limitedGraph rfl _ _ 0 hdepth,
    run_compositeVariance _ _ _ _ _ _ _ _ _ .none _ tree_doubled hbound (evaluate_doubled 2) rfl
      dependencies_limited, inUnit_zero,
    run_addTerms_cons _ _ _ _ _ _ _ _ _ _ _ symbol_limited (run_variance_limited _ _)
      (isZero_number 5 (by norm_num)) (addContribution_number _ _ _ _ _ _ slope_doubled), hsum]
  rfl

/-- The parts of the double's variance. -/
theorem variance_adds_up_limited :
    ∃ a b : ℝ, 0 ≤ a ∧ 0 ≤ b ∧ 20 = a + b ∧
      ((Propagator.combinedVariance (.composite doubled) limitedGraph.measurements
        { typeB := false }).run (⟨Bindings.empty, ⟨⟩⟩ : Propagator (NoMemory ℝ) ℝ)).1 =
          .ok (some (.number a)) ∧
      ((Propagator.combinedVariance (.composite doubled) limitedGraph.measurements
        { typeA := false }).run (⟨Bindings.empty, ⟨⟩⟩ : Propagator (NoMemory ℝ) ℝ)).1 =
          .ok (some (.number b)) := by
  rcases variance_adds_up (⟨Bindings.empty, ⟨⟩⟩ : Propagator (NoMemory ℝ) ℝ)
    limitedGraph.measurements (by decide) (.composite doubled)
    (DerivativeStore.answers_noMemory _ _) _ combinedVariance_limited with
    ⟨a, b, ha, hb, hsum, hruns⟩
  have hparts := hruns ⟨Bindings.empty, ⟨⟩⟩ rfl (DerivativeStore.answers_noMemory _ _)
  exact ⟨a, b, ha, hb, hsum, hparts.1, hparts.2.1⟩

end Example

end Propagator

end Metrology
