import Mathlib.Algebra.Order.Round
import Mathlib.Analysis.SpecialFunctions.Log.Base
import Mathlib.Analysis.SpecialFunctions.Pow.Real
import Mathlib.Analysis.SpecialFunctions.Trigonometric.Arctan
import Mathlib.Analysis.SpecialFunctions.Trigonometric.Inverse
import Metrology.Proofs.Scalar.Power

/-!
# Exact numbers as scalars

A law of propagation is a law about real numbers. With the reals as scalars,
literals, arithmetic and the elementary functions are exact, and everything that
is computed on scalars is what mathematics says it is.

Outside of its domain a real function has whatever value the library gives it.
No real number is undefined, so a power that is no real number is not refused
here. Statements about powers name the bases they are about.

## Main definitions

* `RealScalar.instArithmetic`, `RealScalar.instScalar`: The real numbers as scalars.

## Theorems

* `RealScalar.ofDecimal_eq`, `RealScalar.ofNat_eq`, `RealScalar.ofInt_eq`,
  `RealScalar.zero_eq`, `RealScalar.one_eq`: Literals are the numbers they denote.
* `RealScalar.isZero_iff`, `RealScalar.less_iff`, `RealScalar.lessEq_iff`: Comparisons
  are those of numbers.
* `RealScalar.powNat_eq`, `RealScalar.powInt_eq`, `RealScalar.powInt_two`: Powers are
  powers.
-/

namespace Metrology

/-- Quotients of real numbers are the library's, wherever they are written. -/
noncomputable instance RealScalar.instDiv : Div ℝ := DivInvMonoid.toDiv

noncomputable instance RealScalar.instArithmetic : Arithmetic ℝ where
  add x y := x + y
  sub x y := x - y
  mul x y := x * y
  div x y := x / y
  neg x := -x
  ofDecimal d := d.coefficient * 10 ^ d.exponent
  abs x := |x|
  equal x y := decide (x = y)
  less x y := decide (x < y)

/-- The integer that a power stands for is found with the tolerance and the bounds
    that the program has. -/
noncomputable instance RealScalar.instScalar : Scalar ℝ where
  pi := Real.pi
  euler := Real.exp 1
  sqrt := Real.sqrt
  sin := Real.sin
  cos := Real.cos
  tan := Real.tan
  asin := Real.arcsin
  acos := Real.arccos
  atan := Real.arctan
  ln := Real.log
  log10 := Real.logb 10
  exp := Real.exp
  pow x y := x ^ y
  integral? x :=
    if 1e-9 < |x - round x| then none else some (max (-2147483648) (min 2147483647 (round x)))
  isFinite _ := true

namespace RealScalar

@[simp]
theorem ofDecimal_eq (d : Decimal) :
    (Arithmetic.ofDecimal d : ℝ) = d.coefficient * 10 ^ d.exponent := rfl

@[simp]
theorem ofNat_eq (n : ℕ) : (Arithmetic.ofNat n : ℝ) = n := by
  simp [Arithmetic.ofNat, Decimal.ofNat]

@[simp]
theorem ofInt_eq (n : ℤ) : (Arithmetic.ofInt n : ℝ) = n := by
  rw [Arithmetic.ofInt, ofNat_eq, Nat.cast_natAbs]
  split
  · next hn =>
    change -((|n| : ℤ) : ℝ) = n
    rw [abs_of_neg hn, Int.cast_neg, neg_neg]
  · next hn => rw [abs_of_nonneg (not_lt.mp hn)]

@[simp]
theorem zero_eq : (Arithmetic.zero : ℝ) = 0 := by
  rw [Arithmetic.zero, ofNat_eq, Nat.cast_zero]

@[simp]
theorem one_eq : (Arithmetic.one : ℝ) = 1 := by
  rw [Arithmetic.one, ofNat_eq, Nat.cast_one]

@[simp]
theorem equal_iff (x y : ℝ) : Arithmetic.equal x y = true ↔ x = y := decide_eq_true_iff

@[simp]
theorem isZero_iff (x : ℝ) : Arithmetic.isZero x = true ↔ x = 0 := by
  rw [Arithmetic.isZero, equal_iff, zero_eq]

@[simp]
theorem isZero_eq_false_iff (x : ℝ) : Arithmetic.isZero x = false ↔ x ≠ 0 := by
  rw [← Bool.not_eq_true, isZero_iff]

@[simp]
theorem less_iff (x y : ℝ) : Arithmetic.less x y = true ↔ x < y := decide_eq_true_iff

@[simp]
theorem lessEq_iff (x y : ℝ) : Arithmetic.lessEq x y = true ↔ x ≤ y := by
  rw [Arithmetic.lessEq, Bool.or_eq_true, less_iff, equal_iff, le_iff_lt_or_eq]

@[simp]
theorem isUndefined_eq (x : ℝ) : Arithmetic.isUndefined x = false := by
  rw [Arithmetic.isUndefined, (equal_iff x x).mpr rfl, Bool.not_true]

@[simp]
theorem powNat_eq (x : ℝ) (n : ℕ) : Arithmetic.powNat x n = x ^ n :=
  Arithmetic.powNat_induct (fun n y => y = x ^ n)
    (fun m n y z hy hz => by rw [hy, hz, pow_add]) (by rw [one_eq, pow_zero]) x
    (pow_one x).symm n

@[simp]
theorem powInt_eq (x : ℝ) (n : ℤ) : Arithmetic.powInt x n = x ^ n := by
  rw [Arithmetic.powInt, powNat_eq]
  split
  · next hn =>
    rw [one_eq, one_div, ← zpow_natCast, ← zpow_neg, Int.ofNat_natAbs_of_nonpos hn.le, neg_neg]
  · next hn => rw [← zpow_natCast, Int.natAbs_of_nonneg (not_lt.mp hn)]

/-- The second power is the square. -/
theorem powInt_two (x : ℝ) : Arithmetic.powInt x 2 = x * x := by
  have hpower : Arithmetic.powInt x 2 = Arithmetic.one * (x * x) := rfl
  rw [hpower, one_eq, one_mul]

end RealScalar

end Metrology
