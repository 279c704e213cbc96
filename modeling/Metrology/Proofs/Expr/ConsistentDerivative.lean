import Metrology.Proofs.Expr.DerivativeDimension
import Metrology.Proofs.Expr.Unconditional
import Metrology.Proofs.Scalar.Exact

/-!
# Derivatives on exact numbers

Computed on exact numbers, every formula is one in which numbers do not interfere with
dimensions: no literal is infinite, and every exponent can be lowered by one. So its
derivatives have the dimensions they should have, without any condition on the
formula but that no exponent varies.

## Theorems

* `Expr.regular_exact`: On exact numbers, every formula is regular.
* `Expr.differentiate_consistent`: Every derivative is the literal zero or has its
  dimension.
-/

namespace Metrology

/-- The exact reals have the zero of the real numbers. -/
instance ExactReal.instExactZero : ExactZero ExactReal where
  eq_zero := ExactZero.eq_zero (α := ℝ)
  isZero_zero := ExactZero.isZero_zero (α := ℝ)
  neg_zero := ExactZero.neg_zero (α := ℝ)
  zero_add_zero := ExactZero.zero_add_zero (α := ℝ)
  zero_sub_zero := ExactZero.zero_sub_zero (α := ℝ)
  zero_mul := ExactZero.zero_mul (α := ℝ)
  mul_zero := ExactZero.mul_zero (α := ℝ)
  zero_div := ExactZero.zero_div (α := ℝ)

namespace Expr

open Arithmetic (zero one)

/-- On exact numbers there is no formula in which numbers interfere with dimensions. -/
theorem regular_exact (bound : Bindings ExactReal) (target : String) (tree : Expr ExactReal) :
    tree.Regular bound target where
  finite_literal _ _ := rfl
  finite_derivative _ _ _ _ := rfl
  steady _ _ _ _ q _ _ _ _ power _ := ExactReal.scaledPower?_sub_one power q.value

/-- On exact numbers, the derivative with respect to a symbol that does not occur is the
    literal zero. Where the formula has a value, the symbol is bound, and no exponent
    varies with it, the derivative is the literal zero as well, or else every value of it
    has the dimension of the formula less that of the symbol, and where it has no value
    that is because of a divisor that is zero, an argument outside of a domain, or
    powers of units that are out of range. -/
theorem differentiate_consistent (tree : Expr ExactReal) (target : String) :
    (tree.mentions target = false → tree.differentiate target = number zero) ∧
      ∀ (bound : Bindings ExactReal) (v q : Quantity ExactReal), bound.Derived →
        lookup bound target = .ok v → tree.evaluate bound = .ok q →
        tree.FixedExponents target →
          tree.differentiate target = number zero ∨
          ∃ d e, v.dimension = .ok d ∧ q.dimension = .ok e ∧
            (∀ result, (tree.differentiate target).evaluate bound = .ok result →
              result.dimension = .ok (e - d)) ∧
            ∀ failure, (tree.differentiate target).evaluate bound = .error failure →
              failure.IsTolerated := by
  refine ⟨differentiate_unmentioned target tree, fun bound v q hbound hv hq hfixed => ?_⟩
  have hv' : (symbol target).evaluate bound = .ok v := hv
  rcases (evaluate_derived bound hbound _ v hv').wellFormed.measures with ⟨d, hd⟩
  rcases (evaluate_derived bound hbound tree q hq).wellFormed.measures with ⟨e, he⟩
  have hfits := fitsDimension_differentiate hbound target v hv hd tree hfixed
    (regular_exact bound target tree) q e hq he
  rcases hfits with hzero | hdimension
  · exact Or.inl ((isZeroLiteral_iff _).mp hzero)
  · exact Or.inr ⟨d, e, hd.dimension_eq, he.dimension_eq,
      fun result hresult => (hdimension.value_of_ok _ _ hresult).dimension_eq,
      fun failure hfailure => hdimension.failure_of_error _ _ hfailure⟩

/-- The square of three metres, of which the derivative is a length. -/
theorem differentiate_consistent_square :
    let tree : Expr ExactReal := binary .pow (symbol "x") (number (Arithmetic.ofNat 2))
    let v : Quantity ExactReal := ⟨Arithmetic.ofNat 3, .si { length := 1 }⟩
    let bound := Bindings.empty.bind "x" v
    (bound.Derived ∧ lookup bound "x" = .ok v ∧ tree.FixedExponents "x") ∧
      ∃ q, tree.evaluate bound = .ok q ∧ (tree.differentiate "x" = number zero ∨
        ∃ d e, v.dimension = .ok d ∧ q.dimension = .ok e ∧
          (∀ result, (tree.differentiate "x").evaluate bound = .ok result →
            result.dimension = .ok (e - d)) ∧
          ∀ failure, (tree.differentiate "x").evaluate bound = .error failure →
            failure.IsTolerated) := by
  intro tree v bound
  have hbound : bound.Derived := by
    intro name q hq
    change (if name = "x" then some v else none) = some q at hq
    split at hq
    · rw [← Option.some.inj hq]
      exact .si _ (by rw [Dimension.Fits]; decide)
    · cases hq
  have hfixed : tree.FixedExponents "x" := by
    intro base exponent hmem
    simp only [tree, parts, List.mem_cons, List.mem_append, List.not_mem_nil, or_false,
      binary.injEq, reduceCtorEq] at hmem
    rw [hmem.2.2]
    rfl
  have hevaluate : tree.evaluate bound =
      applyPower v (.number (Arithmetic.ofNat 2)) := rfl
  have hunit : v.unit.powReal (CompoundUnit.none.ofBase (Arithmetic.ofNat 2)) =
      .ok ⟨[⟨"m", { length := 1 }, one, 2⟩]⟩ := by
    have hfactors : v.unit.factors = [⟨"m", { length := 1 }, one, 1⟩] := rfl
    rw [CompoundUnit.powReal, hfactors, CompoundUnit.powFactors?,
      FoldingScalar.scaledPower?_two 1 (by decide) (by decide)]
    rfl
  let q : Quantity ExactReal := ⟨Scalar.pow v.value (CompoundUnit.none.ofBase (Arithmetic.ofNat 2)),
    ⟨[⟨"m", { length := 1 }, one, 2⟩]⟩⟩
  have hq : tree.evaluate bound = .ok q := by
    refine hevaluate.trans ((applyPower_eq_ok _ _ q).mpr ⟨?_, RealScalar.isUndefined_eq _⟩)
    exact (Quantity.powReal_eq_ok _ _ q).mpr ⟨_, rfl, rfl, hunit⟩
  exact ⟨⟨hbound, rfl, hfixed⟩, q, hq,
    (differentiate_consistent tree "x").2 bound v q hbound rfl hq hfixed⟩

end Expr

end Metrology
