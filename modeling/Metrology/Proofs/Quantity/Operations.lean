import Metrology.Expr.Evaluation
import Metrology.Proofs.Outcome

/-!
# Successful operations

When an operation on quantities succeeds, and with which result. Sums ask for
one dimension and keep the unit of the first operand; products, quotients and
powers compute the number and the unit apart, and only the unit can fail.

Formulas apply these operations after checks of their own. What is left of a
success, once the checks are passed, is the success of the operation.

## Theorems

* `Quantity.checkSameDimension_eq_ok`: When two units can be added.
* `Quantity.dimensionless_eq_ok`: When a quantity is a number.
* `Quantity.add_eq_ok`, `Quantity.sub_eq_ok`: Sums.
* `Quantity.mul_eq_ok`, `Quantity.div_eq_ok`, `Quantity.powInt_eq_ok`,
  `Quantity.powReal_eq_ok`, `Quantity.sqrt_eq_ok`: Operations that make a unit.
* `Expr.applyQuotient_eq_ok`, `Expr.applyPower_eq_ok`,
  `Expr.applyFunction_eq_ok`: The operations in formulas.
-/

namespace Metrology

variable {α : Type}

namespace Quantity

@[simp]
theorem checkSameDimension_eq_ok (left right : CompoundUnit α) (done : PUnit) :
    checkSameDimension left right = .ok done ↔
      ∃ d, left.dimension = .ok d ∧ right.dimension = .ok d := by
  rw [checkSameDimension, Outcome.bind_eq_ok]
  refine exists_congr fun d => and_congr_right fun _ => ?_
  rw [Outcome.bind_eq_ok]
  constructor
  · rintro ⟨e, he, h⟩
    split at h
    · cases h
    · next hsame => rw [he, Decidable.not_not.mp hsame]
  · intro h
    exact ⟨d, h, by rw [if_neg (by simp)]; rfl⟩

/-- A number beside a unit that can fail. -/
theorem withUnit_eq_ok (value : α) (unit : Except (UnitError α) (CompoundUnit α))
    (result : Quantity α) :
    (do return ⟨value, ← unit⟩ : Except (UnitError α) (Quantity α)) = .ok result ↔
      result.value = value ∧ unit = .ok result.unit := by
  rw [Outcome.bind_eq_ok]
  simp only [Outcome.pure_eq_ok]
  constructor
  · rintro ⟨found, hfound, rfl⟩
    exact ⟨rfl, hfound⟩
  · rintro ⟨rfl, hunit⟩
    exact ⟨result.unit, hunit, rfl⟩

section Operations

variable [Arithmetic α]

/-- A quantity is a number if it has no dimension; its unit does not matter. -/
theorem dimensionless_eq_ok (q : Quantity α) (x : α) :
    q.dimensionless = .ok x ↔
      q.dimension = .ok Dimension.one ∧ x = CompoundUnit.none.ofBase q.value := by
  have hnone : (CompoundUnit.none : CompoundUnit α).dimension = .ok Dimension.one := rfl
  rw [dimensionless, numberIn, Outcome.bind_eq_ok]
  simp only [checkSameDimension_eq_ok, Outcome.pure_eq_ok, hnone, Except.ok.injEq]
  constructor
  · rintro ⟨-, ⟨d, hd, rfl⟩, hx⟩
    exact ⟨hd, hx.symm⟩
  · rintro ⟨hd, hx⟩
    exact ⟨⟨⟩, ⟨_, hd, rfl⟩, hx.symm⟩

theorem add_eq_ok (p q result : Quantity α) :
    p.add q = .ok result ↔
      (∃ d, p.dimension = .ok d ∧ q.dimension = .ok d) ∧ result = ⟨p.value + q.value, p.unit⟩ := by
  rw [add, Outcome.bind_eq_ok]
  simp only [checkSameDimension_eq_ok, Outcome.pure_eq_ok]
  constructor
  · rintro ⟨-, hd, h⟩
    exact ⟨hd, h.symm⟩
  · rintro ⟨hd, h⟩
    exact ⟨⟨⟩, hd, h.symm⟩

theorem sub_eq_ok (p q result : Quantity α) :
    p.sub q = .ok result ↔
      (∃ d, p.dimension = .ok d ∧ q.dimension = .ok d) ∧ result = ⟨p.value - q.value, p.unit⟩ := by
  rw [sub, Outcome.bind_eq_ok]
  simp only [checkSameDimension_eq_ok, Outcome.pure_eq_ok]
  constructor
  · rintro ⟨-, hd, h⟩
    exact ⟨hd, h.symm⟩
  · rintro ⟨hd, h⟩
    exact ⟨⟨⟩, hd, h.symm⟩

theorem mul_eq_ok (p q result : Quantity α) :
    p.mul q = .ok result ↔
      result.value = p.value * q.value ∧ p.unit.mul q.unit = .ok result.unit :=
  withUnit_eq_ok _ _ _

theorem div_eq_ok (p q result : Quantity α) :
    p.div q = .ok result ↔
      result.value = p.value / q.value ∧ p.unit.div q.unit = .ok result.unit :=
  withUnit_eq_ok _ _ _

theorem powInt_eq_ok (q result : Quantity α) (n : Int) :
    q.powInt n = .ok result ↔
      result.value = Arithmetic.powInt q.value n ∧ q.unit.powInt n = .ok result.unit :=
  withUnit_eq_ok _ _ _

end Operations

section RealPowers

variable [Scalar α]

theorem powReal_eq_ok (q exponent result : Quantity α) :
    q.powReal exponent = .ok result ↔
      ∃ e, exponent.dimensionless = .ok e ∧ result.value = Scalar.pow q.value e ∧
        q.unit.powReal e = .ok result.unit := by
  rw [powReal, Outcome.bind_eq_ok]
  exact exists_congr fun e => and_congr_right fun _ => withUnit_eq_ok _ _ _

theorem sqrt_eq_ok (q result : Quantity α) :
    q.sqrt = .ok result ↔
      result.value = Scalar.sqrt q.value ∧
        q.unit.powReal (Arithmetic.ofDecimal ⟨5, -1⟩) = .ok result.unit :=
  withUnit_eq_ok _ _ _

end RealPowers

end Quantity

namespace Expr

@[simp]
theorem liftUnit_eq_ok {β : Type} (outcome : Except (UnitError α) β) (b : β) :
    liftUnit outcome = .ok b ↔ outcome = .ok b := by
  cases outcome <;> simp [liftUnit]

variable [Scalar α]

theorem applyQuotient_eq_ok (p q result : Quantity α) :
    applyQuotient p q = .ok result ↔ q.isZero = false ∧ p.div q = .ok result := by
  rw [applyQuotient]
  cases q.isZero <;> simp

theorem applyPower_eq_ok (p q result : Quantity α) :
    applyPower p q = .ok result ↔
      p.powReal q = .ok result ∧ Arithmetic.isUndefined result.value = false := by
  rw [applyPower, Outcome.bind_eq_ok]
  simp only [liftUnit_eq_ok]
  constructor
  · rintro ⟨power, hpower, h⟩
    split at h
    · cases h
    · next hundefined =>
      rw [Except.ok.injEq] at h
      exact h ▸ ⟨hpower, Bool.eq_false_iff.mpr hundefined⟩
  · rintro ⟨hpower, hundefined⟩
    exact ⟨result, hpower, by rw [hundefined, if_neg Bool.false_ne_true]⟩

/-- A function of a quantity is a root, an absolute value, or a function of a
    plain number. -/
theorem applyFunction_eq_ok (function : String) (q result : Quantity α) :
    applyFunction function q = .ok result ↔
      if function = "sqrt" then
        Arithmetic.less q.value Arithmetic.zero = false ∧ q.sqrt = .ok result
      else if function = "abs" then result = q.abs
      else ∃ x y, q.dimensionless = .ok x ∧ applyScalar function x = .ok y ∧
        result = .number y := by
  rw [applyFunction]
  split
  · cases Arithmetic.less q.value Arithmetic.zero <;> simp
  · split
    · rw [Except.ok.injEq, eq_comm]
    · simp only [Outcome.bind_eq_ok, Outcome.pure_eq_ok, liftUnit_eq_ok]
      constructor
      · rintro ⟨x, hx, y, hy, rfl⟩
        exact ⟨x, y, hx, hy, rfl⟩
      · rintro ⟨x, y, hx, hy, rfl⟩
        exact ⟨x, hx, y, hy, rfl⟩

end Expr

end Metrology
