import Metrology.Proofs.Unit.WellFormed
import Metrology.Scalar.Double

/-!
# Derived units

Which units a user can ever meet, and why all of them are well-formed. A unit
is read from a text, or it is the coherent SI unit of a dimension, or it is made
from such units by products, quotients and powers.

The coherent SI unit carries the kilogram with the scale one, where the catalog
multiplies the scale of the gram by that of its prefix. So the scalars must
agree that a thousand thousandths are one. This and the law of half powers,
which square roots need, are all that units ask of their scalars.

## Main definitions

* `UnitScalar`: What units ask of scalars.
* `CompoundUnit.Derived`: The units that reading and the operations give.

## Theorems

* `CompoundUnit.read_wellFormed`: A unit that was read is well-formed.
* `CompoundUnit.si_wellFormed`: Coherent SI units are well-formed.
* `CompoundUnit.powInt_eq_times`: Powers multiply the powers of factors.
* `CompoundUnit.powReal_half_powInt_two`: The root of a square is the unit.
* `CompoundUnit.Derived.wellFormed`: Every derived unit is well-formed.
-/

namespace Metrology

/-- What units ask of scalars: a thousand thousandths are one, and half of an
    even power is the power that was doubled. -/
class UnitScalar (α : Type) [Scalar α] : Prop where
  kilo_milli : (Arithmetic.ofDecimal ⟨1, -3⟩ : α) * Arithmetic.ofDecimal ⟨1, 3⟩ = Arithmetic.one
  half_double (power : Int) (hlow : -63 ≤ power) (hhigh : power ≤ 63) :
    CompoundUnit.scaledPower? (power * 2) (Arithmetic.ofDecimal ⟨5, -1⟩ : α) = some power

namespace CompoundUnit

variable {α : Type} [Scalar α]

/-- The units that reading and the operations give. -/
inductive Derived : CompoundUnit α → Prop
  | read (source : String) (unit : CompoundUnit α) (h : read source = .ok unit) : Derived unit
  | mul (unit other result : CompoundUnit α) (hunit : Derived unit) (hother : Derived other)
      (h : unit.mul other = .ok result) : Derived result
  | div (unit other result : CompoundUnit α) (hunit : Derived unit) (hother : Derived other)
      (h : unit.div other = .ok result) : Derived result
  | powInt (unit result : CompoundUnit α) (n : Int) (hunit : Derived unit)
      (h : unit.powInt n = .ok result) : Derived result
  | powReal (unit result : CompoundUnit α) (exponent : α) (hunit : Derived unit)
      (h : unit.powReal exponent = .ok result) : Derived result
  | si (dimension : Dimension) (h : dimension.Fits) : Derived (si dimension)

/-- Half of an even power, on doubles. -/
theorem scaledPower?_half : ∀ power ∈ List.range 127,
    scaledPower? (((power : Int) - 63) * 2) (Arithmetic.ofDecimal ⟨5, -1⟩ : Float) =
      some ((power : Int) - 63) := by
  decide +kernel

/-- Doubles meet what units ask of scalars. -/
instance : UnitScalar Float where
  kilo_milli := by decide +kernel
  half_double power hlow hhigh := by
    have h := scaledPower?_half (power + 63).toNat (List.mem_range.mpr (by omega))
    rwa [Int.toNat_of_nonneg (by omega), Int.add_sub_cancel] at h

theorem mul_wellFormed (unit other result : CompoundUnit α) (hunit : WellFormed unit)
    (hother : WellFormed other) (h : unit.mul other = .ok result) : WellFormed result := by
  rw [mul, Outcome.bind_eq_ok] at h
  rcases h with ⟨product, hproduct, hcheck⟩
  exact wellFormed_of_check product result
    (pushAll_tidy unit product other.factors hunit.tidy hother.tidy.known hproduct) hcheck

theorem div_wellFormed (unit other result : CompoundUnit α) (hunit : WellFormed unit)
    (hother : WellFormed other) (h : unit.div other = .ok result) : WellFormed result := by
  rw [div, Outcome.bind_eq_ok] at h
  rcases h with ⟨quotient, hquotient, hcheck⟩
  refine wellFormed_of_check quotient result
    (pushAll_tidy unit quotient _ hunit.tidy ?_ hquotient) hcheck
  intro factor hfactor
  rcases List.mem_map.mp hfactor with ⟨original, hmem, rfl⟩
  exact hother.tidy.known original hmem

theorem powInt_wellFormed (unit result : CompoundUnit α) (n : Int) (hunit : WellFormed unit)
    (h : unit.powInt n = .ok result) : WellFormed result := by
  rw [powInt, Outcome.bind_eq_ok] at h
  rcases h with ⟨power, hpower, hcheck⟩
  refine wellFormed_of_check power result ?_ hcheck
  refine Outcome.foldlM_keeps (fun product => Tidy product.factors) _ unit.factors ?_ none power
    tidy_nil hpower
  intro product factor next hmem hproduct hstep
  rw [Outcome.bind_eq_ok] at hstep
  rcases hstep with ⟨raised, hraised, hpush⟩
  refine push_tidy product next raised hproduct ?_ hpush
  rw [multiplyPower] at hraised
  split at hraised
  · rw [Except.ok.injEq] at hraised
    exact hraised ▸ hunit.tidy.known factor hmem
  · exact absurd hraised (by simp only [reduceCtorEq, not_false_eq_true])

/-- Scanning a text keeps the shape of the unit read so far. -/
theorem scan_tidy (source : String) (cs : List Char) :
    ∀ (skip : Nat) (divide : Bool) (unit result : CompoundUnit α), Tidy unit.factors →
      UnitReader.scan source skip divide unit cs = .ok result → Tidy result.factors := by
  induction cs with
  | nil =>
      intro skip divide unit result hunit h
      rw [UnitReader.scan] at h
      split at h
      · exact absurd h (by simp only [reduceCtorEq, not_false_eq_true])
      · rw [Except.ok.injEq] at h
        exact h ▸ hunit
  | cons c rest ih =>
      intro skip divide unit result hunit h
      cases skip with
      | succ skip => exact ih skip divide unit result hunit h
      | zero =>
          rw [UnitReader.scan] at h
          split at h
          · exact ih 0 divide unit result hunit h
          · split at h
            · split at h
              · exact absurd h (by simp only [reduceCtorEq, not_false_eq_true])
              · exact ih 0 true unit result hunit h
            · split at h
              · exact ih 0 divide unit result hunit h
              · split at h
                · -- The only step that merges: a known symbol with its power.
                  cases hlookup : Catalog.lookup (α := α)
                      (String.ofList (c :: rest.takeWhile UnitReader.continuesSymbol)) with
                  | none =>
                      simp only [hlookup, reduceCtorEq] at h
                  | some meaning =>
                      rcases meaning with ⟨dimension, scale⟩
                      simp only [hlookup] at h
                      split at h
                      · exact absurd h (by simp only [reduceCtorEq, not_false_eq_true])
                      · rw [Outcome.bind_eq_ok] at h
                        rcases h with ⟨power, -, h⟩
                        rw [Outcome.bind_eq_ok] at h
                        rcases h with ⟨next, hpush, hrest⟩
                        refine ih _ false next result (push_tidy unit next _ hunit ?_ hpush) hrest
                        exact hlookup
                · exact absurd h (by simp only [reduceCtorEq, not_false_eq_true])

theorem read_wellFormed (source : String) (unit : CompoundUnit α) (h : read source = .ok unit) :
    WellFormed unit := by
  rw [CompoundUnit.read, Outcome.bind_eq_ok] at h
  rcases h with ⟨product, hscan, hcheck⟩
  exact wellFormed_of_check product unit
    (scan_tidy source source.toList 0 false none product tidy_nil hscan) hcheck

section RealPowers

/-- Raising factors to a real power keeps the shape of the product. -/
theorem powFactors?_tidy (exponent : α) (factors : List (UnitFactor α)) :
    ∀ product result : CompoundUnit α, Tidy product.factors →
      (∀ factor ∈ factors, Known factor) →
      powFactors? exponent product factors = .ok (some result) → Tidy result.factors := by
  induction factors with
  | nil =>
      intro product result hproduct _ h
      rw [powFactors?, Except.ok.injEq, Option.some.injEq] at h
      exact h ▸ hproduct
  | cons factor rest ih =>
      intro product result hproduct hknown h
      rw [powFactors?] at h
      cases hpower : scaledPower? factor.power exponent with
      | none => simp only [hpower, Except.ok.injEq, reduceCtorEq] at h
      | some power =>
          simp only [hpower] at h
          rw [Outcome.bind_eq_ok] at h
          rcases h with ⟨next, hpush, hrest⟩
          have hnext := push_tidy product next _ hproduct
            (show Known { factor with power } from hknown factor List.mem_cons_self) hpush
          exact ih next result hnext (fun f hf => hknown f (List.mem_cons_of_mem _ hf)) hrest

/-- The exponents of a real power fit into eight bits. -/
theorem inRange_of_mem_scaledExponents? (overflow : UnitError α) (exponent : α)
    (powers : List Int) :
    ∀ scaled, scaledExponents? overflow exponent powers = .ok (some scaled) →
      ∀ power ∈ scaled, Dimension.inRange power = true := by
  induction powers with
  | nil =>
      intro scaled h power hmem
      rw [scaledExponents?, Except.ok.injEq, Option.some.injEq] at h
      rw [← h] at hmem
      exact absurd hmem List.not_mem_nil
  | cons first rest ih =>
      intro scaled h power hmem
      rw [scaledExponents?] at h
      cases hfirst : scaledPower? first exponent with
      | none => simp only [hfirst, Except.ok.injEq, reduceCtorEq] at h
      | some value =>
          simp only [hfirst] at h
          by_cases hrange : Dimension.inRange value = true
          · rw [if_pos hrange, Outcome.bind_eq_ok] at h
            rcases h with ⟨others, hothers, heq⟩
            rw [Outcome.pure_eq_ok, Option.map_eq_some_iff] at heq
            rcases heq with ⟨tail, rfl, rfl⟩
            rcases List.mem_cons.mp hmem with rfl | hmem
            · exact hrange
            · exact ih tail hothers power hmem
          · rw [if_neg hrange] at h
            exact absurd h (by simp only [reduceCtorEq, not_false_eq_true])

theorem exponents_of_dimensionOf? (exponents : List Int) (d : Dimension)
    (h : dimensionOf? exponents = some d) : d.exponents = exponents := by
  unfold dimensionOf? at h
  split at h
  · rw [Option.some.injEq] at h
    rw [← h, Dimension.exponents]
  · exact absurd h (by simp only [reduceCtorEq, not_false_eq_true])

end RealPowers

section CoherentUnits

/-- The factors of a coherent SI unit, those of power zero included. -/
def siFactors (d : Dimension) : List (UnitFactor α) :=
  [⟨"kg", { mass := 1 }, Arithmetic.one, d.mass⟩, ⟨"m", { length := 1 }, Arithmetic.one, d.length⟩,
   ⟨"s", { time := 1 }, Arithmetic.one, d.time⟩, ⟨"A", { current := 1 }, Arithmetic.one, d.current⟩,
   ⟨"K", { temperature := 1 }, Arithmetic.one, d.temperature⟩,
   ⟨"mol", { amount := 1 }, Arithmetic.one, d.amount⟩,
   ⟨"cd", { luminosity := 1 }, Arithmetic.one, d.luminosity⟩]

theorem si_eq (d : Dimension) : (si d : CompoundUnit α) = ofFactors (siFactors d) := rfl

/-- The catalog gives the kilogram the scale one. -/
theorem lookup_kilogram [UnitScalar α] :
    Catalog.lookup (α := α) "kg" = some ({ mass := 1 }, Arithmetic.one) := by
  have hlookup : Catalog.lookup (α := α) "kg" =
      some ({ mass := 1 }, Arithmetic.ofDecimal ⟨1, -3⟩ * Arithmetic.ofDecimal ⟨1, 3⟩) := rfl
  rw [hlookup, UnitScalar.kilo_milli]

theorem known_of_mem_siFactors [UnitScalar α] (d : Dimension) :
    ∀ factor ∈ siFactors (α := α) d, Known factor := by
  simp only [siFactors, List.forall_mem_cons, List.not_mem_nil, false_implies, implies_true,
    and_true]
  exact ⟨lookup_kilogram, rfl, rfl, rfl, rfl, rfl, rfl⟩

theorem si_tidy [UnitScalar α] (d : Dimension) (h : d.Fits) :
    Tidy (si d : CompoundUnit α).factors := by
  rw [si_eq]
  refine tidy_ofFactors _ ?_ (known_of_mem_siFactors d) ?_
  · simp only [siFactors, List.map_cons, List.map_nil]
    decide
  · intro f hf
    -- The powers are the exponents of the dimension, which are in range.
    have hpower : f.power ∈ d.exponents := by
      have hpowers : (siFactors (α := α) d).map (·.power) = d.exponents := rfl
      rw [← hpowers]
      exact List.mem_map.mpr ⟨f, hf, rfl⟩
    have hrange := h f.power hpower
    rw [Dimension.inRange, Bool.and_eq_true, decide_eq_true_eq, decide_eq_true_eq] at hrange
    exact hrange

/-- The coherent SI unit of a dimension has that dimension. -/
theorem dimension_si (d : Dimension) (h : d.Fits) :
    (si d : CompoundUnit α).dimension = .ok d := by
  rw [dimension_eq_ok, si_eq, ofFactors, foldlM_filter_nonzero _ _ Dimension.fits_one]
  simp only [Dimension.Fits, Dimension.exponents, Dimension.inRange, List.forall_mem_cons,
    List.not_mem_nil, false_implies, implies_true, and_true, Bool.and_eq_true,
    decide_eq_true_eq] at h
  have hstep : ∀ (product : Dimension) (symbol : String) (base : Dimension) (power : Int),
      (base.map (· * power)).Fits → (Dimension.zipWith (· + ·) product (base.map (· * power))).Fits →
      multiplyDimension product (⟨symbol, base, Arithmetic.one, power⟩ : UnitFactor α) =
        .ok (Dimension.zipWith (· + ·) product (base.map (· * power))) := by
    intro product symbol base power hpower hproduct
    exact (multiplyDimension_eq_ok _ _ _).mpr ⟨hpower, hproduct, rfl⟩
  -- Every exponent is added to zero, so it stays in range at each of the seven steps.
  simp only [siFactors, List.foldlM_cons, List.foldlM_nil]
  iterate 7
    rw [hstep _ _ _ _ (by simp [Dimension.Fits, Dimension.exponents, Dimension.inRange,
      Dimension.map, Dimension.zipWith]; omega) (by simp [Dimension.Fits, Dimension.exponents,
      Dimension.inRange, Dimension.map, Dimension.zipWith, Dimension.one]; omega)]
    simp only [bind, Except.bind]
  simp [Dimension.map, Dimension.zipWith, Dimension.one, pure, Except.pure]

theorem si_wellFormed [UnitScalar α] (d : Dimension) (h : d.Fits) :
    WellFormed (si d : CompoundUnit α) :=
  ⟨si_tidy d h, d, dimension_si d h⟩

end CoherentUnits

theorem powReal_wellFormed [UnitScalar α] (unit result : CompoundUnit α) (exponent : α)
    (hunit : WellFormed unit) (h : unit.powReal exponent = .ok result) : WellFormed result := by
  rw [powReal, Outcome.bind_eq_ok] at h
  rcases h with ⟨product?, hproduct, h⟩
  cases product? with
  | some product =>
      -- Every power can be scaled, and the factors are merged with the new powers.
      simp only at h
      exact wellFormed_of_check product result
        (powFactors?_tidy exponent unit.factors none product tidy_nil hunit.tidy.known hproduct) h
  | none =>
      -- Otherwise the result is the coherent unit of the scaled dimension.
      simp only [Outcome.bind_eq_ok] at h
      rcases h with ⟨d, -, scaled, hscaled, h⟩
      cases hbind : scaled.bind dimensionOf? with
      | none => simp only [hbind, reduceCtorEq] at h
      | some e =>
          simp only [hbind, Outcome.pure_eq_ok] at h
          rw [Option.bind_eq_some_iff] at hbind
          rcases hbind with ⟨powers, rfl, hpowers⟩
          refine h ▸ si_wellFormed e ?_
          rw [Dimension.Fits, exponents_of_dimensionOf? powers e hpowers]
          exact inRange_of_mem_scaledExponents? _ exponent _ powers hscaled

section Squares

/-- Half powers of doubled factors are the factors. -/
theorem powFactors?_half [UnitScalar α] (factors : List (UnitFactor α))
    (hrange : ∀ factor ∈ factors, -63 ≤ factor.power ∧ factor.power ≤ 63) :
    ∀ product : CompoundUnit α,
      powFactors? (Arithmetic.ofDecimal ⟨5, -1⟩) product
          (factors.map (UnitFactor.times 2)) =
        (product.pushAll factors).map some := by
  induction factors with
  | nil => exact fun product => rfl
  | cons factor rest ih =>
      intro product
      have hfactor := hrange factor List.mem_cons_self
      rw [List.map_cons, powFactors?, UnitFactor.times,
        UnitScalar.half_double factor.power hfactor.1 hfactor.2,
        pushAll, List.foldlM_cons]
      simp only
      cases product.push factor with
      | error e => rfl
      | ok next => exact ih (fun f hf => hrange f (List.mem_cons_of_mem _ hf)) next

/-- A power that is not zero has the factors of the unit with multiplied powers. -/
theorem powInt_eq_times (unit power : CompoundUnit α) (n : Int) (hn : n ≠ 0)
    (hunit : WellFormed unit) (h : unit.powInt n = .ok power) :
    power = ⟨unit.factors.map (UnitFactor.times n)⟩ ∧
      ∀ factor ∈ unit.factors, inRange (factor.power * n) = true := by
  rw [powInt, Outcome.bind_eq_ok] at h
  rcases h with ⟨product, hproduct, hcheck⟩
  rw [check_eq_ok] at hcheck
  rcases hcheck with ⟨rfl, -⟩
  have hpush := foldlM_multiplyPower n unit.factors none power hproduct
  have hnodup : (((none : CompoundUnit α).factors ++ unit.factors.map
      (UnitFactor.times n)).map (·.symbol)).Nodup := by
    rw [none, List.nil_append, List.map_map]
    exact hunit.tidy.distinct
  have hnonzero : ∀ factor ∈ (none : CompoundUnit α).factors ++ unit.factors.map
      (UnitFactor.times n), factor.power ≠ 0 := by
    intro factor hmem
    rcases List.mem_map.mp hmem with ⟨original, horiginal, rfl⟩
    exact Int.mul_ne_zero (hunit.tidy.nonzero original horiginal) hn
  rw [pushAll_distinct _ none power hnodup hnonzero] at hpush
  rcases hpush with ⟨hrange, rfl⟩
  exact ⟨rfl, fun factor hmem => hrange _ (List.mem_map_of_mem hmem)⟩

/-- The square root of the square of a unit is the unit. -/
theorem powReal_half_powInt_two [UnitScalar α] (unit square : CompoundUnit α)
    (hunit : WellFormed unit) (h : unit.powInt 2 = .ok square) :
    square.powReal (Arithmetic.ofDecimal ⟨5, -1⟩) = .ok unit := by
  rcases powInt_eq_times unit square 2 (by decide) hunit h with ⟨rfl, hrange⟩
  -- The doubled powers were in range, so halving them is exact.
  have hsmall : ∀ factor ∈ unit.factors, -63 ≤ factor.power ∧ factor.power ≤ 63 := by
    intro factor hmem
    have := hrange factor hmem
    grind
  have hback : (none : CompoundUnit α).pushAll unit.factors = .ok unit := by
    rw [pushAll_distinct unit.factors none unit hunit.tidy.distinct hunit.tidy.nonzero]
    refine ⟨fun factor hmem => ?_, rfl⟩
    have := hsmall factor hmem
    grind
  rw [powReal, powFactors?_half unit.factors hsmall, hback, Except.map]
  exact (check_eq_ok unit unit).mpr ⟨rfl, hunit.measurable⟩

end Squares

/-- Every derived unit is well-formed. -/
theorem Derived.wellFormed [UnitScalar α] (unit : CompoundUnit α) (h : Derived unit) :
    WellFormed unit := by
  induction h with
  | read source unit h => exact read_wellFormed source unit h
  | mul unit other result _ _ h hunit hother => exact mul_wellFormed unit other result hunit hother h
  | div unit other result _ _ h hunit hother => exact div_wellFormed unit other result hunit hother h
  | powInt unit result n _ h hunit => exact powInt_wellFormed unit result n hunit h
  | powReal unit result exponent _ h hunit =>
      exact powReal_wellFormed unit result exponent hunit h
  | si d h => exact si_wellFormed d h

end CompoundUnit

end Metrology
