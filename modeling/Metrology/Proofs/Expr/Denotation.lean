import Metrology.Proofs.Expr.Substitution
import Metrology.Proofs.Quantity.Operations
import Metrology.Proofs.Scalar.Real

/-!
# The real function of a formula

On the real numbers a formula denotes a function of the numbers that stand for
its symbols. Evaluation finds that number and a unit beside it: whatever units
are bound, the value in coherent SI units is the number that the function has at
the values that are bound. Units only decide whether there is a result.

With plain numbers bound there are no units to disagree, and the evaluation
succeeds where every operation is defined: no divisor is zero, and every function
is called inside of its domain.

## Main definitions

* `Expr.functionValue`, `BinaryOp.value`: Functions and operations on numbers.
* `Expr.denote`: The real function that a formula denotes.
* `Expr.FunctionDefined`, `Expr.Defined`: Where evaluation does not refuse an
  argument.
* `Bindings.value`: The numbers that are bound.

## Theorems

* `Expr.denote_congr`: Only mentioned symbols matter.
* `Expr.denote_substitute`: The number after substitution.
* `Expr.value_of_evaluate`: Evaluation finds the denoted number.
* `Expr.evaluate_of_defined`: On plain numbers evaluation succeeds where every
  operation is defined.
-/

namespace Metrology

/-- An operation on numbers. -/
noncomputable def BinaryOp.value : BinaryOp → ℝ → ℝ → ℝ
  | .add, x, y => x + y
  | .sub, x, y => x - y
  | .mul, x, y => x * y
  | .div, x, y => x / y
  | .pow, x, y => x ^ y

namespace Expr

/-- A function on numbers. -/
noncomputable def functionValue (function : String) (x : ℝ) : ℝ :=
  match function with
  | "sqrt" => √x
  | "abs" => |x|
  | "sin" => Real.sin x
  | "cos" => Real.cos x
  | "tan" => Real.tan x
  | "asin" => Real.arcsin x
  | "acos" => Real.arccos x
  | "atan" => Real.arctan x
  | "ln" => Real.log x
  | "log" => Real.log x
  | "log10" => Real.logb (10 : ℕ) x
  | "exp" => Real.exp x
  | _ => 0

/-- The real function that a formula denotes, at the numbers that stand for its
    symbols. -/
noncomputable def denote (point : String → ℝ) : Expr ℝ → ℝ
  | number value => value
  | symbol name => point name
  | binary op left right => op.value (left.denote point) (right.denote point)
  | negate operand => -operand.denote point
  | call function argument => functionValue function (argument.denote point)

/-- Where a function does not refuse its argument. No other function is known. -/
def FunctionDefined (function : String) (x : ℝ) : Prop :=
  match function with
  | "sqrt" => 0 ≤ x
  | "abs" => True
  | "sin" => True
  | "cos" => True
  | "tan" => True
  | "asin" => -1 ≤ x ∧ x ≤ 1
  | "acos" => -1 ≤ x ∧ x ≤ 1
  | "atan" => True
  | "ln" => 0 < x
  | "log" => 0 < x
  | "log10" => 0 < x
  | "exp" => True
  | _ => False

/-- Where no operation of a formula refuses its operands. -/
def Defined (point : String → ℝ) : Expr ℝ → Prop
  | number _ => True
  | symbol _ => True
  | binary op left right =>
    left.Defined point ∧ right.Defined point ∧ (op = .div → right.denote point ≠ 0)
  | negate operand => operand.Defined point
  | call function argument =>
    argument.Defined point ∧ FunctionDefined function (argument.denote point)

/-- Only mentioned symbols matter. -/
theorem denote_congr (point point' : String → ℝ) (tree : Expr ℝ)
    (h : ∀ name, tree.mentions name = true → point name = point' name) :
    tree.denote point = tree.denote point' := by
  induction tree with
  | number value => rfl
  | symbol name => exact h name (decide_eq_true rfl)
  | binary op left right ihl ihr =>
      rw [denote, denote, ihl fun name hname => h name (by simp [mentions, hname]),
        ihr fun name hname => h name (by simp [mentions, hname])]
  | negate operand ih => rw [denote, denote, ih h]
  | call function argument ih => rw [denote, denote, ih h]

/-- The number after substitution is the number at the numbers of what replaces the
    symbols. -/
theorem denote_substitute (point : String → ℝ) (part : String → Expr ℝ) (tree : Expr ℝ) :
    (tree.substitute part).denote point = tree.denote fun name => (part name).denote point := by
  induction tree with
  | number value => rfl
  | symbol name => rfl
  | binary op left right ihl ihr => rw [substitute, denote, ihl, ihr, denote]
  | negate operand ih => rw [substitute, denote, ih, denote]
  | call function argument ih => rw [substitute, denote, ih, denote]

end Expr

/-- The numbers that are bound, in coherent SI units. A name that is not bound may
    have a value of its own. -/
noncomputable def Bindings.value (bindings : Bindings ℝ) (name : String) : ℝ :=
  match bindings name with
  | some q => q.value
  | none => ((Constant.ofName? name).map Constant.value).getD 0

/-- What a binding is worth to a formula is what a lookup finds. -/
theorem Bindings.value_of_lookup (bindings : Bindings ℝ) (name : String) (q : Quantity ℝ)
    (h : Expr.lookup bindings name = .ok q) : q.value = bindings.value name := by
  rw [Expr.lookup] at h
  rw [Bindings.value]
  cases hbound : bindings name with
  | some p =>
      simp only [hbound, Except.ok.injEq] at h
      rw [h]
  | none =>
      cases hconstant : Constant.ofName? name with
      | some constant =>
          simp only [hbound, hconstant, Except.ok.injEq] at h
          rw [← h]
          rfl
      | none => simp only [hbound, hconstant, reduceCtorEq] at h

namespace Expr

section Values

/-- A plain number is its own value. -/
theorem ofBase_none (x : ℝ) : CompoundUnit.none.ofBase x = x := by
  have hscale : CompoundUnit.none.ofBase x = x / Arithmetic.one := rfl
  rw [hscale, RealScalar.one_eq, div_one]

theorem value_of_applyBinary (op : BinaryOp) (p q result : Quantity ℝ)
    (h : applyBinary op p q = .ok result) : result.value = op.value p.value q.value := by
  cases op with
  | add =>
      rw [applyBinary, liftUnit_eq_ok, Quantity.add_eq_ok] at h
      rw [h.2]
      rfl
  | sub =>
      rw [applyBinary, liftUnit_eq_ok, Quantity.sub_eq_ok] at h
      rw [h.2]
      rfl
  | mul =>
      rw [applyBinary, liftUnit_eq_ok, Quantity.mul_eq_ok] at h
      exact h.1
  | div =>
      rw [applyBinary, applyQuotient_eq_ok, Quantity.div_eq_ok] at h
      exact h.2.1
  | pow =>
      rw [applyBinary, applyPower_eq_ok, Quantity.powReal_eq_ok] at h
      rcases h with ⟨⟨e, hexponent, hvalue, -⟩, -⟩
      rw [Quantity.dimensionless_eq_ok, ofBase_none] at hexponent
      rw [hvalue, hexponent.2]
      rfl

theorem value_of_applyInverse (function : String) (f : ℝ → ℝ) (x y : ℝ)
    (h : applyInverse function f x = .ok y) : y = f x := by
  rw [applyInverse] at h
  split at h
  · exact (Except.ok.inj h).symm
  · cases h

theorem value_of_applyLogarithm (function : String) (f : ℝ → ℝ) (x y : ℝ)
    (h : applyLogarithm function f x = .ok y) : y = f x := by
  rw [applyLogarithm] at h
  split at h
  · cases h
  · exact (Except.ok.inj h).symm

theorem value_of_applyScalar (function : String) (x y : ℝ) (h : applyScalar function x = .ok y) :
    y = functionValue function x := by
  unfold applyScalar at h
  split at h
  case h_4 => exact value_of_applyInverse _ _ x y h
  case h_5 => exact value_of_applyInverse _ _ x y h
  case h_7 => exact value_of_applyLogarithm _ _ x y h
  case h_8 => exact value_of_applyLogarithm _ _ x y h
  case h_9 => exact value_of_applyLogarithm _ _ x y h
  case h_11 => cases h
  all_goals exact (Except.ok.inj h).symm

theorem value_of_applyFunction (function : String) (q result : Quantity ℝ)
    (h : applyFunction function q = .ok result) :
    result.value = functionValue function q.value := by
  rw [applyFunction_eq_ok] at h
  split at h
  · next hsqrt =>
    rw [hsqrt, ((Quantity.sqrt_eq_ok q result).mp h.2).1]
    rfl
  · split at h
    · next habs =>
      rw [habs, h]
      rfl
    · rcases h with ⟨x, y, hx, hy, rfl⟩
      rw [Quantity.dimensionless_eq_ok, ofBase_none] at hx
      rw [← hx.2]
      exact value_of_applyScalar function x y hy

/-- Evaluation finds the number that the formula denotes at the numbers that are
    bound. -/
theorem value_of_evaluate (bindings : Bindings ℝ) (tree : Expr ℝ) :
    ∀ q, tree.evaluate bindings = .ok q → q.value = tree.denote bindings.value := by
  induction tree with
  | number value =>
      intro q h
      rw [← Except.ok.inj h]
      rfl
  | symbol name => exact fun q h => bindings.value_of_lookup name q h
  | binary op left right ihl ihr =>
      intro q h
      rw [evaluate, Outcome.bind_eq_ok] at h
      rcases h with ⟨l, hl, h⟩
      rw [Outcome.bind_eq_ok] at h
      rcases h with ⟨r, hr, h⟩
      rw [value_of_applyBinary op l r q h, ihl l hl, ihr r hr, denote]
  | negate operand ih =>
      intro q h
      rw [evaluate, Outcome.bind_eq_ok] at h
      rcases h with ⟨p, hp, h⟩
      rw [Outcome.pure_eq_ok] at h
      have hvalue : p.neg.value = p.value * -Arithmetic.one := rfl
      rw [← h, hvalue, RealScalar.one_eq, mul_neg_one, ih p hp, denote]
  | call function argument ih =>
      intro q h
      rw [evaluate, Outcome.bind_eq_ok] at h
      rcases h with ⟨p, hp, h⟩
      rw [value_of_applyFunction function p q h, ih p hp, denote]

end Values

section PlainNumbers

theorem applyBinary_number (op : BinaryOp) (x y : ℝ) (h : op = .div → y ≠ 0) :
    applyBinary op (.number x) (.number y) = .ok (.number (op.value x y)) := by
  have hsame : ∃ d, (Quantity.number x).dimension = .ok d ∧ (Quantity.number y).dimension = .ok d :=
    ⟨Dimension.one, rfl, rfl⟩
  cases op with
  | add =>
      rw [applyBinary, liftUnit_eq_ok, Quantity.add_eq_ok]
      exact ⟨hsame, rfl⟩
  | sub =>
      rw [applyBinary, liftUnit_eq_ok, Quantity.sub_eq_ok]
      exact ⟨hsame, rfl⟩
  | mul =>
      rw [applyBinary, liftUnit_eq_ok, Quantity.mul_eq_ok]
      exact ⟨rfl, rfl⟩
  | div =>
      rw [applyBinary, applyQuotient_eq_ok, Quantity.div_eq_ok]
      refine ⟨Bool.eq_false_iff.mpr (fun hzero => ?_), rfl, rfl⟩
      exact h rfl ((RealScalar.isZero_iff y).mp hzero)
  | pow =>
      -- No real number is undefined, so no power is refused.
      rw [applyBinary, applyPower_eq_ok, Quantity.powReal_eq_ok]
      refine ⟨⟨y, ?_, rfl, rfl⟩, RealScalar.isUndefined_eq _⟩
      rw [Quantity.dimensionless_eq_ok, Quantity.number, ofBase_none]
      exact ⟨rfl, rfl⟩

theorem applyInverse_of_defined (function : String) (f : ℝ → ℝ) (x : ℝ) (h : -1 ≤ x ∧ x ≤ 1) :
    applyInverse function f x = .ok (f x) := by
  have hlow : Arithmetic.lessEq (-Arithmetic.one) x = true := by
    rw [RealScalar.lessEq_iff, RealScalar.one_eq]
    exact h.1
  have hhigh : Arithmetic.lessEq x Arithmetic.one = true := by
    rw [RealScalar.lessEq_iff, RealScalar.one_eq]
    exact h.2
  rw [applyInverse, hlow, hhigh, Bool.and_true, if_pos rfl]

theorem applyLogarithm_of_defined (function : String) (f : ℝ → ℝ) (x : ℝ) (h : 0 < x) :
    applyLogarithm function f x = .ok (f x) := by
  rw [applyLogarithm, if_neg]
  rw [RealScalar.lessEq_iff, RealScalar.zero_eq]
  exact not_le.mpr h

theorem applyFunction_number (function : String) (x : ℝ) (h : FunctionDefined function x) :
    applyFunction function (.number x) = .ok (.number (functionValue function x)) := by
  have hnumber : (Quantity.number x).dimensionless = .ok x := by
    rw [Quantity.dimensionless_eq_ok, Quantity.number, ofBase_none]
    exact ⟨rfl, rfl⟩
  unfold FunctionDefined at h
  split at h
  case h_1 =>
    rw [applyFunction_eq_ok, if_pos rfl, Quantity.sqrt_eq_ok]
    refine ⟨Bool.eq_false_iff.mpr (fun hless => ?_), rfl, rfl⟩
    rw [RealScalar.less_iff, RealScalar.zero_eq] at hless
    exact absurd h (not_le.mpr hless)
  case h_2 => rfl
  case h_13 => exact h.elim
  -- The others are functions of plain numbers.
  all_goals
    rw [applyFunction_eq_ok, if_neg (by decide), if_neg (by decide)]
    refine ⟨x, _, hnumber, ?_, rfl⟩
  case h_6 => exact applyInverse_of_defined _ _ x h
  case h_7 => exact applyInverse_of_defined _ _ x h
  case h_9 => exact applyLogarithm_of_defined _ _ x h
  case h_10 => exact applyLogarithm_of_defined _ _ x h
  case h_11 => exact applyLogarithm_of_defined _ _ x h
  all_goals rfl

/-- On plain numbers evaluation succeeds where every operation is defined. -/
theorem evaluate_of_defined (bindings : Bindings ℝ) (point : String → ℝ) (tree : Expr ℝ)
    (hplain : ∀ name, tree.mentions name = true →
      lookup bindings name = .ok (.number (point name)))
    (h : tree.Defined point) :
    tree.evaluate bindings = .ok (.number (tree.denote point)) := by
  induction tree with
  | number value => rfl
  | symbol name => exact hplain name (decide_eq_true rfl)
  | binary op left right ihl ihr =>
      rw [evaluate, ihl (fun name hname => hplain name (by simp [mentions, hname])) h.1,
        ihr (fun name hname => hplain name (by simp [mentions, hname])) h.2.1]
      exact applyBinary_number op _ _ h.2.2
  | negate operand ih =>
      -- The sign is turned by a product with minus one.
      rw [evaluate, ih hplain h, denote]
      have hneg : (Quantity.number (operand.denote point)).neg =
          .number (operand.denote point * -Arithmetic.one) := rfl
      change Except.ok (Quantity.number (operand.denote point)).neg = _
      rw [hneg, RealScalar.one_eq, mul_neg_one]
  | call function argument ih =>
      rw [evaluate, ih hplain h.1]
      exact applyFunction_number function _ h.2

end PlainNumbers

end Expr

end Metrology
