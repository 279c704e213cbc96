import Mathlib.Algebra.Order.Field.Power
import Mathlib.Data.Int.Log
import Mathlib.Data.Rat.Floor
import Mathlib.Tactic.Positivity
import Mathlib.Tactic.Ring
import Metrology.Proofs.Scalar.Power
import Metrology.Report.Notation

/-!
# Exact quotients as scalars

A report is written from doubles, and each double is a quotient of integers. With
the rational numbers as scalars, the arithmetic on the way to a text is exact, and
so is the order of magnitude. What the ceiling of a scalar is stored in still has
64 bits.

## Main definitions

* `RationalScalar.instArithmetic`, `RationalScalar.instDisplayable`: The rational
  numbers as scalars.
* `Double.toRat`: What a double denotes.

## Theorems

* `RationalScalar.tenTo_eq`: Powers of ten are powers of ten.
* `RationalScalar.orderOfMagnitude_bounds`: The order of magnitude is the floor of the
  logarithm.
* `Double.orderOfMagnitude_toRat`: The orders of magnitude of doubles.
-/

namespace Metrology

instance RationalScalar.instArithmetic : Arithmetic ℚ where
  add x y := x + y
  sub x y := x - y
  mul x y := x * y
  div x y := x / y
  neg x := -x
  ofDecimal d := d.coefficient * 10 ^ d.exponent
  abs x := |x|
  equal x y := decide (x = y)
  less x y := decide (x < y)

/-- The ceiling is kept in 64 bits, as it is for doubles. -/
instance RationalScalar.instDisplayable : Displayable ℚ where
  exact x := .finite (decide (x < 0)) x.num.natAbs x.den
  orderOfMagnitude x := if x = 0 then 0 else Int.log 10 |x|
  ceiling x := max (-2 ^ 63) (min (2 ^ 63 - 1) ⌈x⌉)

namespace RationalScalar

open Arithmetic (ofNat ofDecimal zero one)

@[simp]
theorem ofDecimal_eq (d : Decimal) : (ofDecimal d : ℚ) = d.coefficient * 10 ^ d.exponent := rfl

@[simp]
theorem ofNat_eq (n : ℕ) : (ofNat n : ℚ) = n := by
  simp [ofNat, Decimal.ofNat]

@[simp]
theorem zero_eq : (zero : ℚ) = 0 := by
  rw [zero, ofNat_eq, Nat.cast_zero]

@[simp]
theorem one_eq : (one : ℚ) = 1 := by
  rw [one, ofNat_eq, Nat.cast_one]

@[simp]
theorem less_iff (x y : ℚ) : Arithmetic.less x y = true ↔ x < y := decide_eq_true_iff

@[simp]
theorem powNat_eq (x : ℚ) (n : ℕ) : Arithmetic.powNat x n = x ^ n :=
  Arithmetic.powNat_induct (fun n y => y = x ^ n)
    (fun m n y z hy hz => by rw [hy, hz, pow_add]) (by rw [one_eq, pow_zero]) x
    (pow_one x).symm n

@[simp]
theorem powInt_eq (x : ℚ) (n : ℤ) : Arithmetic.powInt x n = x ^ n := by
  have hpower : Arithmetic.powInt x n =
      if n < 0 then one / Arithmetic.powNat x n.natAbs else Arithmetic.powNat x n.natAbs := rfl
  rw [hpower, powNat_eq]
  split
  · next hn =>
    have hone : (one : ℚ) / x ^ n.natAbs = 1 / x ^ n.natAbs := by rw [one_eq]
    rw [hone, one_div, ← zpow_natCast, ← zpow_neg, Int.ofNat_natAbs_of_nonpos hn.le, neg_neg]
  · next hn => rw [← zpow_natCast, Int.natAbs_of_nonneg (not_lt.mp hn)]

/-- Powers of ten are powers of ten. -/
@[simp]
theorem tenTo_eq (n : ℤ) : (Notation.tenTo n : ℚ) = 10 ^ n := by
  rw [Notation.tenTo, powInt_eq, ofNat_eq]
  rfl

/-- The order of magnitude is the floor of the logarithm. -/
theorem orderOfMagnitude_bounds (x : ℚ) (hx : x ≠ 0) :
    (10 : ℚ) ^ Displayable.orderOfMagnitude x ≤ |x| ∧
      |x| < 10 ^ (Displayable.orderOfMagnitude x + 1) := by
  have horder : Displayable.orderOfMagnitude x = Int.log 10 |x| := if_neg hx
  rw [horder]
  have hpositive : 0 < |x| := abs_pos.mpr hx
  exact ⟨Int.zpow_log_le_self (by decide) hpositive, Int.lt_zpow_succ_log_self (by decide) _⟩

end RationalScalar

namespace Double

/-- What a double denotes; zero if that is no number. -/
def toRat (x : Float) : ℚ :=
  match Binary64.ofFloat x with
  | .finite negative significand exponent =>
    if negative then -(significand * 2 ^ exponent) else significand * 2 ^ exponent
  | _ => 0

/-- The parts of a double are small. -/
theorem ofFloat_bounds (x : Float) (negative : Bool) (significand : ℕ) (exponent : ℤ)
    (h : Binary64.ofFloat x = .finite negative significand exponent) :
    significand < 2 ^ 53 ∧ -1074 ≤ exponent ∧ exponent ≤ 971 := by
  simp only [Binary64.ofFloat, Binary64.ofBits, Binary64.leastNormal, Binary64.leastExponent] at h
  have hfield := Nat.mod_lt (x.toBits.toNat / 2 ^ 52) (by decide : 0 < 2 ^ 11)
  have hfraction := Nat.mod_lt x.toBits.toNat (by decide : 0 < 2 ^ 52)
  split at h
  · split at h <;> cases h
  · split at h
    · cases h
      omega
    · cases h
      omega

/-- The orders of magnitude of doubles. -/
theorem orderOfMagnitude_toRat (x : Float) :
    -324 ≤ Displayable.orderOfMagnitude (toRat x) ∧
      Displayable.orderOfMagnitude (toRat x) ≤ 308 := by
  by_cases hzero : toRat x = 0
  · have horder : Displayable.orderOfMagnitude (toRat x) = 0 := if_pos hzero
    rw [horder]
    decide
  have horder : Displayable.orderOfMagnitude (toRat x) = Int.log 10 |toRat x| := if_neg hzero
  have hpositive : 0 < |toRat x| := abs_pos.mpr hzero
  have hsize : ∃ (significand : ℕ) (exponent : ℤ), |toRat x| = significand * 2 ^ exponent ∧
      significand < 2 ^ 53 ∧ -1074 ≤ exponent ∧ exponent ≤ 971 := by
    cases h : Binary64.ofFloat x with
    | finite negative significand exponent =>
        refine ⟨significand, exponent, ?_, ofFloat_bounds x negative significand exponent h⟩
        have hnonneg : (0 : ℚ) ≤ significand * 2 ^ exponent := by positivity
        rw [toRat, h]
        cases negative
        · exact abs_of_nonneg hnonneg
        · simp only [if_true]
          rw [abs_neg, abs_of_nonneg hnonneg]
    | _ => simp [toRat, h] at hzero
  rcases hsize with ⟨significand, exponent, hvalue, hsignificand, hlow, hhigh⟩
  have hnonzero : 1 ≤ significand := by
    rcases Nat.eq_zero_or_pos significand with h | h
    · rw [hvalue, h, Nat.cast_zero, zero_mul] at hpositive
      exact absurd hpositive (lt_irrefl _)
    · exact h
  rw [horder]
  constructor
  · rw [← Int.zpow_le_iff_le_log (by decide) hpositive, hvalue]
    have hpower : (2 : ℚ) ^ (1074 : ℤ) ≤ 10 ^ (324 : ℤ) := by
      calc (2 : ℚ) ^ (1074 : ℤ) = (2 ^ (93 : ℤ)) ^ (11 : ℤ) * 2 ^ (51 : ℤ) := by
            rw [← zpow_mul, ← zpow_add₀ (by norm_num)]
            rfl
        _ ≤ (10 ^ (28 : ℤ)) ^ (11 : ℤ) * 10 ^ (16 : ℤ) := by gcongr <;> norm_num
        _ = 10 ^ (324 : ℤ) := by
            rw [← zpow_mul, ← zpow_add₀ (by norm_num)]
            rfl
    calc ((10 : ℕ) : ℚ) ^ (-324 : ℤ) ≤ 2 ^ (-1074 : ℤ) := by
          rw [zpow_neg, zpow_neg]
          exact inv_anti₀ (by positivity) hpower
      _ ≤ 2 ^ exponent := zpow_le_zpow_right₀ (by norm_num) hlow
      _ ≤ significand * 2 ^ exponent :=
        le_mul_of_one_le_left (by positivity) (by exact_mod_cast hnonzero)
  · rw [← Int.lt_add_one_iff, ← Int.lt_zpow_iff_log_lt (by decide) hpositive, hvalue]
    calc (significand : ℚ) * 2 ^ exponent ≤ significand * 2 ^ (971 : ℤ) :=
          mul_le_mul_of_nonneg_left (zpow_le_zpow_right₀ (by norm_num) hhigh) (Nat.cast_nonneg _)
      _ < 2 ^ 53 * 2 ^ (971 : ℤ) :=
          mul_lt_mul_of_pos_right (by exact_mod_cast hsignificand) (by positivity)
      _ = 2 ^ (1024 : ℤ) := by
          rw [← zpow_natCast, ← zpow_add₀ (by norm_num)]
          rfl
      _ = (2 ^ (93 : ℤ)) ^ (11 : ℤ) * 2 ^ (1 : ℤ) := by
          rw [← zpow_mul, ← zpow_add₀ (by norm_num)]
          rfl
      _ < (10 ^ (28 : ℤ)) ^ (11 : ℤ) * 10 ^ (1 : ℤ) := by gcongr <;> norm_num
      _ = ((10 : ℕ) : ℚ) ^ (308 + 1 : ℤ) := by
          rw [← zpow_mul, ← zpow_add₀ (by norm_num)]
          rfl

end Double

end Metrology
