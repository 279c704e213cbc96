import Metrology.Proofs.Scalar.Exact
import Metrology.Proofs.Unit.ExactPowers
import Metrology.Proofs.Unit.Reciprocal

/-!
# Real powers beside integer powers and dimensions

A unit is raised in three ways. An integer power multiplies the powers of its factors,
within 32 bits. A real power does the same as long as every product is an integer, and
otherwise raises the dimension as a whole. Where an exponent is an integer, the first two
ways merge the same factors. A product that leaves 32 bits ends the first way at once, and
the second one when it is merged, because then its power is out of range.

On exact numbers nothing but arithmetic decides between the ways. Whichever is taken, the
exponents of the dimension are multiplied, and a power exists as soon as they become
integers, unless some power leaves its range. What the factors are does not matter.

## Main definitions

* `Dimension.IntegralAt`: A number that makes integers of all exponents.

## Theorems

* `CompoundUnit.powReal_of_multiple`: Real powers that merge multiplied factors.
* `CompoundUnit.powInt_eq_ok_iff`: Integer powers are merged multiplied factors.
* `CompoundUnit.powReal_agrees`: A real power with an integer is the integer power.
* `ExactReal.scales_of_powReal`, `ExactReal.powReal_eq_error`: Dimensions of powers, and
  why there is none.
* `CompoundUnit.powReal_exact`: Real powers agree with integer powers and with the
  dimension.
-/

namespace Metrology

open Arithmetic (ofDecimal ofInt)

/-- Multiplied with the number, all exponents of the dimension are integers. -/
def Dimension.IntegralAt (d : Dimension) (r : ℝ) : Prop :=
  ∀ c ∈ Dimension.components, ∃ n : ℤ, (c d : ℝ) * r = n

namespace CompoundUnit

section Integers

variable {α : Type} [Scalar α] (unit : CompoundUnit α) (exponent : α) (n : ℤ)

/-- Factors that are all raised are merged like the multiplied ones. -/
theorem powFactors?_of_multiple (factors : List (UnitFactor α))
    (h : ∀ factor ∈ factors, scaledPower? factor.power exponent = some (factor.power * n)) :
    ∀ product : CompoundUnit α, powFactors? exponent product factors =
      (product.pushAll (factors.map (UnitFactor.times n))).map some := by
  induction factors with
  | nil => exact fun product => rfl
  | cons factor rest ih =>
      intro product
      rw [powFactors?, h factor List.mem_cons_self, List.map_cons, pushAll, List.foldlM_cons]
      simp only
      -- Both merge the raised factor first, and fail there or go on alike.
      change product.push (factor.times n) >>= _ = (product.push (factor.times n) >>= _).map some
      cases product.push (factor.times n) with
      | error e => rfl
      | ok next => exact ih (fun other hother => h other (List.mem_cons_of_mem _ hother)) next

/-- A real power for which all factors can be raised merges the multiplied ones. -/
theorem powReal_of_multiple
    (h : ∀ factor ∈ unit.factors, scaledPower? factor.power exponent = some (factor.power * n)) :
    unit.powReal exponent =
      none.pushAll (unit.factors.map (UnitFactor.times n)) >>= check := by
  rw [powReal, powFactors?_of_multiple exponent n unit.factors h]
  cases none.pushAll (unit.factors.map (UnitFactor.times n)) <;> rfl

/-- Multiplied factors that can be merged have powers within 32 bits. -/
theorem inWord_of_pushAll (factors : List (UnitFactor α))
    (hknown : ∀ factor ∈ factors, Known factor) :
    ∀ product result : CompoundUnit α, Tidy product.factors →
      product.pushAll (factors.map (UnitFactor.times n)) = .ok result →
        ∀ factor ∈ factors, inWord (factor.power * n) = true := by
  induction factors with
  | nil => exact fun _ _ _ _ factor hmem => absurd hmem List.not_mem_nil
  | cons factor rest ih =>
      intro product result hproduct h
      rw [List.map_cons, pushAll, List.foldlM_cons, Outcome.bind_eq_ok] at h
      rcases h with ⟨next, hnext, hrest⟩
      have hraised : Known (factor.times n) := hknown factor List.mem_cons_self
      have hsmall : -255 ≤ factor.power * n ∧ factor.power * n ≤ 255 :=
        push_small product next _ hproduct hnext
      refine List.forall_mem_cons.mpr ⟨(inWord_iff _).mpr (by omega), ?_⟩
      exact ih (fun other hother => hknown other (List.mem_cons_of_mem _ hother)) next result
        (push_tidy product next _ hproduct hraised hnext) hrest

/-- An integer power is there where the multiplied factors can be merged. -/
theorem powInt_eq_ok_iff (htidy : Tidy unit.factors) (result : CompoundUnit α) :
    unit.powInt n = .ok result ↔
      none.pushAll (unit.factors.map (UnitFactor.times n)) >>= check = .ok result := by
  rw [powInt, Outcome.bind_eq_ok, Outcome.bind_eq_ok]
  refine exists_congr fun product => and_congr_left fun _ => ?_
  refine ⟨foldlM_multiplyPower n unit.factors none product, fun h => ?_⟩
  -- What is merged stays within 32 bits, so no product is refused before.
  have hword := inWord_of_pushAll n unit.factors htidy.known none product tidy_nil h
  exact (foldlM_multiplyPower_eq n unit.factors hword none).trans h

/-- With an exponent that multiplies the powers of all factors by an integer, the real power
    is the integer power, or both fail with powers out of range. -/
theorem powReal_agrees (d : Dimension) (hunit : unit.Measures d)
    (h : ∀ factor ∈ unit.factors, scaledPower? factor.power exponent = some (factor.power * n)) :
    (∃ power, unit.powReal exponent = .ok power ∧ unit.powInt n = .ok power) ∨
      ∃ e e', unit.powReal exponent = .error e ∧ unit.powInt n = .error e' ∧
        e.IsOverflow ∧ e'.IsOverflow := by
  have hsame := unit.powInt_eq_ok_iff n hunit.tidy
  rw [← unit.powReal_of_multiple exponent n h] at hsame
  cases hreal : unit.powReal exponent with
  | ok power => exact Or.inl ⟨power, rfl, (hsame power).mpr hreal⟩
  | error e =>
      cases hint : unit.powInt n with
      | ok power =>
          rw [(hsame power).mp hint] at hreal
          cases hreal
      | error e' =>
          refine Or.inr ⟨e, e', rfl, rfl, ?_, (hunit.powInt n).failure_of_error _ e' hint⟩
          -- Merging and checking fail with powers out of range only.
          rw [unit.powReal_of_multiple exponent n h] at hreal
          rcases (Outcome.bind_eq_error _ _ _).mp hreal with hpush | ⟨product, -, hcheck⟩
          · rcases Outcome.foldlM_eq_error _ _ _ _ hpush with ⟨product, factor, -, hstep⟩
            exact push_eq_error product factor e hstep
          · exact check_eq_error product e hcheck

end Integers

end CompoundUnit

namespace ExactReal

open CompoundUnit (ActsAs scaledPower? scaledDimension?)

/-- Exact numbers multiply powers. -/
theorem actsAs (x : ExactReal) : ActsAs x x.toReal :=
  fun power _ _ scaled _ _ => scaledPower?_eq_some power scaled x

/-- A dimension is scaled to its multiple, if that is one. -/
theorem scaledDimension?_eq_some (x : ExactReal) (d e : Dimension) :
    scaledDimension? (scaledPower? · x) d = some e ↔ d.Scales x.toReal e := by
  rw [CompoundUnit.scaledDimension?_eq_some_iff]
  exact forall₂_congr fun c _ => scaledPower?_eq_some (c d) (c e) x

/-- The dimension that is a multiple of another one, if all exponents are integers. -/
theorem exists_scales (d : Dimension) (r : ℝ) (h : d.IntegralAt r) : ∃ e, d.Scales r e := by
  -- The products are integers, so rounding them changes nothing.
  refine ⟨d.map fun exponent => round ((exponent : ℝ) * r), ?_⟩
  have hcomponent : ∀ c ∈ Dimension.components,
      c (d.map fun exponent => round ((exponent : ℝ) * r)) = round ((c d : ℝ) * r) := by
    simp [Dimension.components, Dimension.map, Dimension.zipWith]
  intro c hc
  rcases h c hc with ⟨n, hn⟩
  rw [hcomponent c hc, hn, round_intCast]

variable (unit : CompoundUnit ExactReal) (d : Dimension) (hunit : unit.Measures d)
  (x : ExactReal)

include hunit

/-- A power has the multiplied dimension, whether or not the factors were kept. -/
theorem scales_of_powReal (power : CompoundUnit ExactReal) (h : unit.powReal x = .ok power) :
    ∃ e, power.dimension = .ok e ∧ d.Scales x.toReal e := by
  rcases hunit.scaledDimension?_of_powReal unit d x x.toReal (actsAs x) power h with
    ⟨e, he, hpower⟩
  exact ⟨e, hpower.dimension_eq, (scaledDimension?_eq_some x d e).mp he⟩

/-- There is no power because powers leave the range, or because some exponent of the
    dimension does not become an integer. -/
theorem powReal_eq_error (e : UnitError ExactReal) (h : unit.powReal x = .error e) :
    e.IsOverflow ∨ (e = .fractionalPower unit x ∧ ¬ d.IntegralAt x.toReal) := by
  rcases unit.powReal_eq_error d hunit x e h with hoverflow | ⟨hfractional, hnone⟩
  · exact Or.inl hoverflow
  · refine Or.inr ⟨hfractional, fun hintegral => ?_⟩
    rcases exists_scales d x.toReal hintegral with ⟨scaled, hscaled⟩
    rw [(scaledDimension?_eq_some x d scaled).mpr hscaled] at hnone
    cases hnone

/-- Where no power leaves its range, there is a power exactly if the exponents of the
    dimension become integers. -/
theorem exists_powReal_iff (hrange : ∀ e, unit.powReal x = .error e → ¬ e.IsOverflow) :
    (∃ power, unit.powReal x = .ok power) ↔ d.IntegralAt x.toReal := by
  constructor
  · rintro ⟨power, hpower⟩ c hc
    rcases scales_of_powReal unit d hunit x power hpower with ⟨e, -, hscales⟩
    exact ⟨c e, hscales c hc⟩
  · intro hintegral
    cases hpower : unit.powReal x with
    | ok power => exact ⟨power, rfl⟩
    | error e =>
        rcases powReal_eq_error unit d hunit x e hpower with hoverflow | ⟨-, hfractional⟩
        · exact absurd hoverflow (hrange e hpower)
        · exact absurd hintegral hfractional

end ExactReal

namespace CompoundUnit

/-- Real powers agree with integer powers and with the dimension. With an integer both are
    the same unit, or both leave the range of powers. A power has the multiplied dimension.
    And leaving the range aside, there is a power exactly if the multiplied exponents are
    integers, so for all units of a dimension or for none. -/
theorem powReal_exact (unit : CompoundUnit ExactReal) (hunit : unit.Derived) :
    ∃ d, unit.dimension = .ok d ∧
      (∀ n : ℤ,
        (∃ power, unit.powReal (ofInt n) = .ok power ∧ unit.powInt n = .ok power) ∨
          ∃ e e', unit.powReal (ofInt n) = .error e ∧ unit.powInt n = .error e' ∧
            e.IsOverflow ∧ e'.IsOverflow) ∧
      (∀ x power, unit.powReal x = .ok power →
        ∃ e, power.dimension = .ok e ∧ d.Scales x.toReal e) ∧
      (∀ x, (∀ e, unit.powReal x = .error e → ¬ e.IsOverflow) →
        ((∃ power, unit.powReal x = .ok power) ↔ d.IntegralAt x.toReal)) ∧
      ∀ x (other : CompoundUnit ExactReal), other.Derived → other.dimension = .ok d →
        (∀ e, unit.powReal x = .error e → ¬ e.IsOverflow) →
        (∀ e, other.powReal x = .error e → ¬ e.IsOverflow) →
          ((∃ power, unit.powReal x = .ok power) ↔ ∃ power, other.powReal x = .ok power) := by
  rcases hunit.wellFormed.measures with ⟨d, hd⟩
  refine ⟨d, hd.dimension_eq, fun n => ?_, ExactReal.scales_of_powReal unit d hd,
    ExactReal.exists_powReal_iff unit d hd, ?_⟩
  · -- An integer multiplies every power by itself.
    refine unit.powReal_agrees (ofInt n) n d hd fun factor _ => ?_
    rw [ExactReal.scaledPower?_eq_some, ExactReal.ofInt_eq, Int.cast_mul]
  · intro x other hother hdimension hrange hrange'
    have hd' : other.Measures d := ⟨hother.wellFormed.tidy, hdimension⟩
    rw [ExactReal.exists_powReal_iff unit d hd x hrange,
      ExactReal.exists_powReal_iff other d hd' x hrange']

/-- An area has a cube, and a root that is a length, because half of its exponent is an
    integer. -/
theorem powReal_exact_area :
    (∃ power, (si { length := 2 } : CompoundUnit ExactReal).powReal (ofInt 3) = .ok power ∧
      (si { length := 2 } : CompoundUnit ExactReal).powInt 3 = .ok power) ∧
    (∃ e, (si { length := 1 } : CompoundUnit ExactReal).dimension = .ok e ∧
      Dimension.Scales (ofDecimal ⟨5, -1⟩ : ExactReal).toReal { length := 2 } e) ∧
    Dimension.IntegralAt { length := 2 } (ofDecimal ⟨5, -1⟩ : ExactReal).toReal := by
  let area : CompoundUnit ExactReal := si { length := 2 }
  have harea : area.Derived := .si _ (by rw [Dimension.Fits]; decide)
  rcases powReal_exact area harea with ⟨d, hd, hinteger, hscales, hintegral, -⟩
  have hdimension : area.dimension = .ok { length := 2 } := rfl
  rw [hdimension, Except.ok.injEq] at hd
  subst hd
  have hcube : area.powInt 3 = .ok (si { length := 6 }) := rfl
  have hroot : area.powReal (ofDecimal ⟨5, -1⟩) = .ok (si { length := 1 }) := by
    have hfactors : area.factors = [⟨"m", { length := 1 }, Arithmetic.one, 1 * 2⟩] := rfl
    rw [powReal, hfactors, powFactors?, UnitScalar.half_double 1 (by decide) (by decide)]
    rfl
  refine ⟨?_, hscales _ _ hroot, (hintegral _ fun e he => ?_).mp ⟨_, hroot⟩⟩
  · rcases hinteger 3 with hpower | ⟨e, e', -, hfailure, -⟩
    · exact hpower
    · rw [hcube] at hfailure
      cases hfailure
  · rw [hroot] at he
    cases he

end CompoundUnit

end Metrology
