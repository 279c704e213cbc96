import Metrology.Expr.Derivative
import Metrology.Proofs.Expr.Denotation

/-!
# Rules of derivatives without conditions

What a derivative denotes is the slope of the formula only where the formula is smooth.
Some rules hold of the trees themselves, wherever they are evaluated and whether or not
they have a value there. A formula in which a symbol does not occur has the literal zero
as its derivative, and the derivatives of sums, differences and products denote what the
rules for these say.

The first rule asks for scalars of which one only is zero, and for zeros that survive
the operations. The doubles have two zeros and infinities, and do not have it.

## Main definitions

* `ExactZero`: Scalars with one zero.

## Theorems

* `Expr.differentiate_unmentioned`: The derivative of a formula that does not vary.
* `Expr.denote_differentiate_add`, `Expr.denote_differentiate_sub`,
  `Expr.denote_differentiate_mul`: The rules for sums, differences and products.
-/

namespace Metrology

open Arithmetic (isZero zero one)

/-- Scalars of which one is zero, which is kept by signs and sums, and makes every
    product and quotient zero. -/
class ExactZero (α : Type) [Scalar α] : Prop where
  eq_zero (x : α) (hx : isZero x = true) : x = zero
  isZero_zero : isZero (zero : α) = true
  neg_zero : -(zero : α) = zero
  zero_add_zero : (zero + zero : α) = zero
  zero_sub_zero : (zero - zero : α) = zero
  zero_mul (x : α) : zero * x = zero
  mul_zero (x : α) : x * zero = zero
  zero_div (x : α) : zero / x = zero

instance RealScalar.instExactZero : ExactZero ℝ where
  eq_zero x hx := by rw [(RealScalar.isZero_iff x).mp hx, RealScalar.zero_eq]
  isZero_zero := (RealScalar.isZero_iff _).mpr RealScalar.zero_eq
  neg_zero := by
    rw [RealScalar.zero_eq]
    exact neg_zero
  zero_add_zero := by
    rw [RealScalar.zero_eq]
    exact add_zero 0
  zero_sub_zero := by
    rw [RealScalar.zero_eq]
    exact sub_zero 0
  zero_mul x := by
    rw [RealScalar.zero_eq]
    exact MulZeroClass.zero_mul x
  mul_zero x := by
    rw [RealScalar.zero_eq]
    exact MulZeroClass.mul_zero x
  zero_div x := by
    rw [RealScalar.zero_eq]
    exact zero_div x

namespace Expr

section Vanishing

variable {α : Type} [Scalar α] [ExactZero α]

/-- One literal only is zero. -/
theorem isZeroLiteral_iff (tree : Expr α) : tree.isZeroLiteral = true ↔ tree = number zero := by
  constructor
  · intro h
    cases tree with
    | number x => rw [ExactZero.eq_zero x h]
    | _ => cases h
  · rintro rfl
    exact ExactZero.isZero_zero

namespace Simplified

theorem neg_zero_literal : neg (number zero) = (number zero : Expr α) := by
  rw [neg, ExactZero.neg_zero]

theorem add_zero_literals : add (number zero) (number zero) = (number zero : Expr α) := by
  rw [add, ExactZero.zero_add_zero]

theorem sub_zero_literals : sub (number zero) (number zero) = (number zero : Expr α) := by
  rw [sub, ExactZero.zero_sub_zero]

theorem zero_literal_mul (tree : Expr α) : mul (number zero) tree = number zero := by
  cases tree with
  | number x => rw [mul, ExactZero.zero_mul]
  | _ => simp [mul, ExactZero.isZero_zero]

theorem mul_zero_literal (tree : Expr α) : mul tree (number zero) = number zero := by
  cases tree with
  | number x => rw [mul, ExactZero.mul_zero]
  | _ => simp [mul, ExactZero.isZero_zero]

/-- A quotient of the literal zero is folded, even if the divisor is zero. -/
theorem zero_literal_div (tree : Expr α) : div (number zero) tree = number zero := by
  cases tree with
  | number x => simp [div, ExactZero.isZero_zero, ExactZero.zero_div]
  | _ => simp [div, ExactZero.isZero_zero]

end Simplified

open Simplified in
/-- The derivative with respect to a symbol that does not occur is the literal zero. -/
theorem differentiate_unmentioned (target : String) (tree : Expr α)
    (h : tree.mentions target = false) : tree.differentiate target = number zero := by
  induction tree with
  | number value => rfl
  | symbol name =>
      rw [mentions, decide_eq_false_iff_not] at h
      rw [differentiate, if_neg h]
  | negate operand ih => rw [differentiate, ih h, neg_zero_literal]
  | binary op left right ihl ihr =>
      rw [mentions, Bool.or_eq_false_iff] at h
      have hleft := ihl h.1
      have hright := ihr h.2
      cases op with
      | add => rw [differentiate, hleft, hright, add_zero_literals]
      | sub => rw [differentiate, hleft, hright, sub_zero_literals]
      | mul =>
          rw [differentiate, hleft, hright, zero_literal_mul, mul_zero_literal, add_zero_literals]
      | div => rw [differentiate, h.2, if_neg Bool.false_ne_true, hleft, zero_literal_div]
      | pow => rw [differentiate, h.1, h.2, powerDerivative]
  | call function argument ih =>
      rw [differentiate, ih h, if_pos ((isZeroLiteral_iff _).mpr rfl)]

end Vanishing

section Denotations

variable (point : String → ℝ) (a b : Expr ℝ) (target : String)

namespace Simplified

theorem denote_neg : (neg a).denote point = -a.denote point := by
  unfold neg
  split
  · rfl
  · rw [denote, neg_neg]
  · rfl

theorem denote_add : (add a b).denote point = a.denote point + b.denote point := by
  unfold add
  split
  · rfl
  · split
    · next hx => rw [denote, (RealScalar.isZero_iff _).mp hx, zero_add]
    · rfl
  · split
    · next hy => rw [denote, (RealScalar.isZero_iff _).mp hy, add_zero]
    · rfl
  · rfl

theorem denote_sub : (sub a b).denote point = a.denote point - b.denote point := by
  unfold sub
  split
  · rfl
  · split
    · next hx => rw [denote_neg, denote, (RealScalar.isZero_iff _).mp hx, zero_sub]
    · rfl
  · split
    · next hy => rw [denote, (RealScalar.isZero_iff _).mp hy, sub_zero]
    · rfl
  · rfl

/-- A product with a literal factor is zero, or the other factor with or without a sign,
    or it stays. -/
theorem denote_literalFactor (x : ℝ) (kept : Expr ℝ)
    (hkept : kept.denote point = x * b.denote point) :
    (if isZero x then Expr.number zero
      else if Arithmetic.equal x one then b
      else if Arithmetic.equal x (-one) then neg b
      else kept).denote point = x * b.denote point := by
  split
  · next hzero =>
    rw [(RealScalar.isZero_iff x).mp hzero, zero_mul]
    exact RealScalar.zero_eq
  · split
    · next hone =>
      rw [RealScalar.equal_iff, RealScalar.one_eq] at hone
      rw [hone, one_mul]
    · split
      · next hminus =>
        rw [RealScalar.equal_iff, RealScalar.one_eq] at hminus
        rw [denote_neg, hminus]
        exact (neg_one_mul _).symm
      · exact hkept

theorem denote_mul : (mul a b).denote point = a.denote point * b.denote point := by
  unfold mul
  split
  · rfl
  · exact denote_literalFactor point b _ _ rfl
  · rw [mul_comm]
    exact denote_literalFactor point a _ _ (mul_comm _ _)
  · rfl

end Simplified

open Simplified

theorem denote_differentiate_unmentioned (h : a.mentions target = false) :
    (a.differentiate target).denote point = 0 := by
  rw [differentiate_unmentioned target a h]
  exact RealScalar.zero_eq

theorem denote_differentiate_add :
    ((binary .add a b).differentiate target).denote point =
      (a.differentiate target).denote point + (b.differentiate target).denote point := by
  rw [differentiate, denote_add]

theorem denote_differentiate_sub :
    ((binary .sub a b).differentiate target).denote point =
      (a.differentiate target).denote point - (b.differentiate target).denote point := by
  rw [differentiate, denote_sub]

theorem denote_differentiate_mul :
    ((binary .mul a b).differentiate target).denote point =
      (a.differentiate target).denote point * b.denote point +
        a.denote point * (b.differentiate target).denote point := by
  rw [differentiate, denote_add, denote_mul, denote_mul]

end Denotations

end Expr

end Metrology
