import Metrology.Proofs.Scalar.Folding
import Metrology.Proofs.Scalar.Real

/-!
# Exact numbers with exact powers of units

A power of a unit is made by a scalar, which has to give an integer. The program
allows for rounding there: it takes the nearest integer if that is close enough.
Among exact numbers there is nothing to allow for, and only an integer gives an
integer.

With this reading a law about units has no exceptions that come from rounding.
Literals can be folded at will, because every number is finite, and an exponent less
by one takes exactly one power away from every power. As with the real numbers, a
power that is no real number is not refused: it has some value or other. Refusing it
would only add one more failure to those that laws about units put up with.

## Main definitions

* `ExactReal`: The real numbers, an integer among which is told exactly.

## Theorems

* `ExactReal.integral?_eq_some`: Which numbers stand for integers.
* `ExactReal.scaledPower?_sub_one`: An exponent less by one.
-/

namespace Metrology

open Arithmetic (isZero equal ofDecimal ofNat ofInt zero one)

/-- The real numbers as scalars of which exactly the integers stand for integers. -/
def ExactReal : Type := ℝ

noncomputable instance ExactReal.instScalar : Scalar ExactReal :=
  { RealScalar.instScalar with
    integral? := fun x : ℝ => if (round x : ℝ) = x then some (round x) else none }

namespace ExactReal

/-- The number as a real number. -/
def toReal (x : ExactReal) : ℝ := x

@[simp]
theorem isZero_iff (x : ExactReal) : isZero x = true ↔ x.toReal = 0 := RealScalar.isZero_iff x

@[simp]
theorem equal_iff (x y : ExactReal) : equal x y = true ↔ x.toReal = y.toReal :=
  RealScalar.equal_iff x y

@[simp]
theorem zero_eq : (zero : ExactReal).toReal = 0 := RealScalar.zero_eq

@[simp]
theorem one_eq : (one : ExactReal).toReal = 1 := RealScalar.one_eq

@[simp]
theorem ofNat_eq (n : ℕ) : (ofNat n : ExactReal).toReal = n := RealScalar.ofNat_eq n

@[simp]
theorem ofDecimal_eq (d : Decimal) :
    (ofDecimal d : ExactReal).toReal = d.coefficient * 10 ^ d.exponent := rfl

@[simp]
theorem toReal_add (x y : ExactReal) : (x + y).toReal = x.toReal + y.toReal := rfl

@[simp]
theorem toReal_sub (x y : ExactReal) : (x - y).toReal = x.toReal - y.toReal := rfl

@[simp]
theorem toReal_mul (x y : ExactReal) : (x * y).toReal = x.toReal * y.toReal := rfl

@[simp]
theorem toReal_div (x y : ExactReal) : (x / y).toReal = x.toReal / y.toReal := rfl

@[simp]
theorem toReal_neg (x : ExactReal) : (-x).toReal = -x.toReal := rfl

@[simp]
theorem ofInt_eq (n : ℤ) : (ofInt n : ExactReal).toReal = n := RealScalar.ofInt_eq n

/-- A plain number is a number of no unit. -/
theorem toReal_ofBase_none (x : ExactReal) :
    (CompoundUnit.none.ofBase x).toReal = x.toReal := by
  have hscale : CompoundUnit.none.ofBase x = x / one := rfl
  rw [hscale, toReal_div, one_eq, div_one]

/-- Exactly the integers stand for integers, each for itself. -/
theorem integral?_eq_some (x : ExactReal) (n : ℤ) :
    Scalar.integral? x = some n ↔ x.toReal = n := by
  change (if (round x.toReal : ℝ) = x.toReal then some (round x.toReal) else none) = some n ↔ _
  constructor
  · intro h
    split at h
    · next hround => rw [← hround, Option.some.inj h]
    · cases h
  · intro h
    rw [h, round_intCast, if_pos rfl]

/-- Which powers a power becomes. -/
@[simp]
theorem scaledPower?_eq_some (power scaled : ℤ) (x : ExactReal) :
    CompoundUnit.scaledPower? power x = some scaled ↔ power * x.toReal = scaled := by
  rw [CompoundUnit.scaledPower?, integral?_eq_some, toReal_mul, ofInt_eq]

/-- An exponent less by one takes one power away from every power. -/
theorem scaledPower?_sub_one (power : ℤ) (x : ExactReal) :
    CompoundUnit.scaledPower? power (CompoundUnit.none.ofBase (x - one)) =
      (CompoundUnit.scaledPower? power (CompoundUnit.none.ofBase x)).map (· - power) := by
  ext scaled
  rw [scaledPower?_eq_some, toReal_ofBase_none, toReal_sub, one_eq, Option.map_eq_some_iff]
  constructor
  · intro h
    refine ⟨scaled + power, ?_, by ring⟩
    rw [scaledPower?_eq_some, toReal_ofBase_none, Int.cast_add, ← h]
    ring
  · rintro ⟨whole, hwhole, rfl⟩
    rw [scaledPower?_eq_some, toReal_ofBase_none] at hwhole
    rw [Int.cast_sub, ← hwhole]
    ring

end ExactReal

open ExactReal in
/-- Literals can be folded on exact numbers. -/
instance : FoldingScalar ExactReal where
  kilo_milli := by
    have hproduct : (ofDecimal ⟨1, -3⟩ * ofDecimal ⟨1, 3⟩ : ExactReal).toReal =
        (one : ExactReal).toReal := by
      rw [toReal_mul, ofDecimal_eq, ofDecimal_eq, one_eq]
      norm_num
    exact hproduct
  half_double power _ _ := by
    rw [scaledPower?_eq_some, ofDecimal_eq]
    push_cast
    ring
  isZero_zero := (isZero_iff _).mpr zero_eq
  isZero_one := by
    rw [Bool.eq_false_iff, ne_eq, isZero_iff, one_eq]
    exact one_ne_zero
  isFinite_one := rfl
  isZero_two := by
    rw [Bool.eq_false_iff, ne_eq, isZero_iff, ofNat_eq]
    norm_num
  equal_two_one := by
    rw [Bool.eq_false_iff, ne_eq, equal_iff, ofNat_eq, one_eq]
    norm_num
  isZero_neg x hx := by
    rw [isZero_iff] at hx ⊢
    rw [toReal_neg, hx, neg_zero]
  isZero_add x y hx hy := by
    rw [isZero_iff] at hx hy ⊢
    rw [toReal_add, hx, hy, add_zero]
  isZero_sub x y hx hy := by
    rw [isZero_iff] at hx hy ⊢
    rw [toReal_sub, hx, hy, sub_zero]
  isZero_mul x y hzero _ := by
    rw [isZero_iff, isZero_iff] at hzero
    rw [isZero_iff, toReal_mul]
    exact mul_eq_zero.mpr hzero
  isZero_div x y hx _ _ := by
    rw [isZero_iff] at hx ⊢
    rw [toReal_div, hx, zero_div]
  scaledPower?_half power scaled _ _ h := by
    rw [scaledPower?_eq_some, ofDecimal_eq] at h
    push_cast at h
    rw [zpow_neg_one] at h
    have hdouble : (power : ℝ) = (scaled * 2 : ℤ) := by
      push_cast
      linarith
    exact_mod_cast hdouble
  scaledPower?_zero power x _ _ hx := by
    rw [isZero_iff] at hx
    rw [scaledPower?_eq_some, toReal_ofBase_none, hx, mul_zero, Int.cast_zero]
  scaledPower?_one power x _ _ hx := by
    rw [equal_iff, one_eq] at hx
    rw [scaledPower?_eq_some, toReal_ofBase_none, hx, mul_one]
  scaledPower?_two power _ _ := by
    rw [scaledPower?_eq_some, toReal_ofBase_none, ofNat_eq]
    push_cast
    rfl

end Metrology
