import Metrology.Scalar.Basic

/-!
# Repeated squaring

An integer power is computed by repeated squaring. The scalars have no laws, so what
the result is depends on what multiplication is taken to mean. Whatever is a power of
a number, if products of powers are powers, the computation gives the right one.

## Theorems

* `Arithmetic.squareUp_induct`: Repeated squaring multiplies with a power.
* `Arithmetic.powNat_induct`: Natural powers are powers.
-/

namespace Metrology.Arithmetic

variable {α : Type} [Arithmetic α]

/-- Repeated squaring multiplies with a power, as long as the fuel counts the binary
    digits of the exponent. -/
theorem squareUp_induct (power : Nat → α → Prop)
    (hmul : ∀ m n x y, power m x → power n y → power (m + n) (x * y)) (fuel : Nat) :
    ∀ (start unit : Nat) (result base : α) (n : Nat), power start result → power unit base →
      n < 2 ^ fuel → power (start + unit * n) (squareUp fuel result base n) := by
  induction fuel with
  | zero =>
      intro start unit result base n hresult _ hn
      rw [Nat.lt_one_iff.mp hn, Nat.mul_zero, Nat.add_zero]
      exact hresult
  | succ fuel ih =>
      intro start unit result base n hresult hbase hn
      have hdigit : power (start + unit * (n % 2)) (if n % 2 = 1 then result * base else result) := by
        rcases Nat.mod_two_eq_zero_or_one n with h | h
        · rw [h, if_neg (by decide), Nat.mul_zero, Nat.add_zero]
          exact hresult
        · rw [h, if_pos rfl, Nat.mul_one]
          exact hmul start unit result base hresult hbase
      rw [squareUp]
      split
      · next hlast =>
        have hn : n = n % 2 := by omega
        rw [hn, Nat.mod_mod]
        exact hdigit
      · have hsplit : start + unit * n = start + unit * (n % 2) + (unit + unit) * (n / 2) := by
          have hdivision := Nat.mod_add_div n 2
          rw [Nat.add_assoc, ← Nat.two_mul, Nat.mul_assoc, Nat.mul_left_comm, ← Nat.mul_add,
            hdivision]
        rw [hsplit]
        exact ih _ _ _ _ _ hdigit (hmul unit unit base base hbase hbase)
          (by rw [Nat.pow_succ] at hn; omega)

/-- Natural powers are powers. -/
theorem powNat_induct (power : Nat → α → Prop)
    (hmul : ∀ m n x y, power m x → power n y → power (m + n) (x * y)) (hone : power 0 one)
    (x : α) (hx : power 1 x) (n : Nat) : power n (powNat x n) := by
  have hpower := squareUp_induct power hmul (n.log2 + 1) 0 1 one x n hone hx Nat.lt_log2_self
  rwa [Nat.zero_add, Nat.one_mul] at hpower

end Metrology.Arithmetic
