import Mathlib.Analysis.SpecialFunctions.Log.Deriv
import Mathlib.Analysis.SpecialFunctions.Pow.Deriv
import Mathlib.Analysis.SpecialFunctions.Sqrt
import Mathlib.Analysis.SpecialFunctions.Trigonometric.ArctanDeriv
import Mathlib.Analysis.SpecialFunctions.Trigonometric.InverseDeriv
import Mathlib.Analysis.Calculus.Deriv.Abs
import Metrology.Proofs.Expr.Unconditional
import Metrology.Proofs.Expr.Symbols

/-!
# Symbolic derivatives are partial derivatives

The tree that differentiating a formula gives denotes the partial derivative of
the function that the formula denotes, wherever every operation of the formula
is smooth. In particular it is defined there: no operation that the rules of
differentiation bring in refuses its operands, and no simplification drops one
that would.

Simplified operations denote what the operations do that they stand for. So each
rule needs to be compared with its rule of calculus only, and the trees may be
forgotten in favour of the numbers they denote.

## Main definitions

* `Expr.HasValue`: A formula is defined at a point and denotes a number there.
* `Expr.FunctionSmooth`, `Expr.Smooth`: Where a formula is smooth.

## Theorems

* `Expr.HasValue.add`, `Expr.HasValue.mul`, …: Simplified operations denote the
  operations.
* `Expr.hasDerivAt_function`: Derivatives of functions.
* `Expr.hasDerivAt_pow`: Derivatives of powers.
* `Expr.hasDerivAt_denote`: The derivative is defined and denotes the partial
  derivative.
* `Expr.evaluate_differentiate`: Evaluating the derivative gives the partial
  derivative.
-/

namespace Metrology.Expr

/-- A formula is defined at a point and denotes a number there. -/
structure HasValue (point : String → ℝ) (tree : Expr ℝ) (x : ℝ) : Prop where
  defined : tree.Defined point
  denote_eq : tree.denote point = x

/-- Where a function has a derivative that its rule gives. -/
def FunctionSmooth (function : String) (x : ℝ) : Prop :=
  match function with
  | "sin" => True
  | "cos" => True
  | "tan" => Real.cos x ≠ 0
  | "asin" => -1 < x ∧ x < 1
  | "acos" => -1 < x ∧ x < 1
  | "atan" => True
  | "sqrt" => 0 < x
  | "abs" => x ≠ 0
  | "ln" => 0 < x
  | "log" => 0 < x
  | "log10" => 0 < x
  | "exp" => True
  | _ => False

/-- Where every operation of a formula is smooth. A power with a base that is not
    positive needs an exponent that is an integer and does not vary. -/
def Smooth (target : String) (point : String → ℝ) : Expr ℝ → Prop
  | number _ => True
  | symbol _ => True
  | binary op left right =>
    left.Smooth target point ∧ right.Smooth target point ∧
      (op = .div → right.denote point ≠ 0) ∧
      (op = .pow → 0 < left.denote point ∨
        left.denote point ≠ 0 ∧ right.mentions target = false ∧ ∃ n : ℤ, right.denote point = n)
  | negate operand => operand.Smooth target point
  | call function argument =>
    argument.Smooth target point ∧ FunctionSmooth function (argument.denote point)

theorem FunctionSmooth.defined (function : String) (x : ℝ) (h : FunctionSmooth function x) :
    FunctionDefined function x := by
  unfold FunctionSmooth at h
  split at h
  case h_4 => exact ⟨h.1.le, h.2.le⟩
  case h_5 => exact ⟨h.1.le, h.2.le⟩
  case h_7 => exact h.le
  case h_9 => exact h
  case h_10 => exact h
  case h_11 => exact h
  case h_13 => exact h.elim
  all_goals exact True.intro

/-- A formula is defined where it is smooth. -/
theorem Smooth.hasValue (target : String) (point : String → ℝ) (tree : Expr ℝ)
    (h : tree.Smooth target point) : tree.HasValue point (tree.denote point) := by
  refine ⟨?_, rfl⟩
  induction tree with
  | number value => exact True.intro
  | symbol name => exact True.intro
  | binary op left right ihl ihr => exact ⟨ihl h.1, ihr h.2.1, h.2.2.1⟩
  | negate operand ih => exact ih h
  | call function argument ih => exact ⟨ih h.1, h.2.defined⟩

section Simplification

variable {point : String → ℝ} {a b : Expr ℝ} {x y : ℝ}

theorem HasValue.number (x : ℝ) : (Expr.number x).HasValue point x := ⟨True.intro, rfl⟩

theorem HasValue.zero : (Expr.number Arithmetic.zero).HasValue point 0 :=
  ⟨True.intro, RealScalar.zero_eq⟩

theorem HasValue.one : (Expr.number Arithmetic.one).HasValue point 1 :=
  ⟨True.intro, RealScalar.one_eq⟩

theorem HasValue.call (function : String) (ha : a.HasValue point x)
    (h : FunctionDefined function x) :
    (Expr.call function a).HasValue point (functionValue function x) :=
  ⟨⟨ha.defined, ha.denote_eq.symm ▸ h⟩, by rw [denote, ha.denote_eq]⟩

theorem HasValue.binary (op : BinaryOp) (ha : a.HasValue point x) (hb : b.HasValue point y)
    (h : op = .div → y ≠ 0) : (Expr.binary op a b).HasValue point (op.value x y) :=
  ⟨⟨ha.defined, hb.defined, hb.denote_eq.symm ▸ h⟩, by rw [denote, ha.denote_eq, hb.denote_eq]⟩

/-- The number that a literal has. -/
theorem HasValue.eq_of_number {z : ℝ} (h : (Expr.number z).HasValue point x) : z = x := h.denote_eq

theorem HasValue.neg (ha : a.HasValue point x) : (Simplified.neg a).HasValue point (-x) := by
  refine ⟨?_, by rw [Simplified.denote_neg, ha.denote_eq]⟩
  have hdefined := ha.defined
  unfold Simplified.neg
  split
  · exact True.intro
  · exact hdefined
  · exact hdefined

theorem HasValue.add (ha : a.HasValue point x) (hb : b.HasValue point y) :
    (Simplified.add a b).HasValue point (x + y) := by
  refine ⟨?_, by rw [Simplified.denote_add, ha.denote_eq, hb.denote_eq]⟩
  have hkept := (HasValue.binary .add ha hb (fun h => by cases h)).defined
  unfold Simplified.add
  split
  · exact True.intro
  · split
    · exact hb.defined
    · exact hkept
  · split
    · exact ha.defined
    · exact hkept
  · exact hkept

theorem HasValue.sub (ha : a.HasValue point x) (hb : b.HasValue point y) :
    (Simplified.sub a b).HasValue point (x - y) := by
  refine ⟨?_, by rw [Simplified.denote_sub, ha.denote_eq, hb.denote_eq]⟩
  have hkept := (HasValue.binary .sub ha hb (fun h => by cases h)).defined
  unfold Simplified.sub
  split
  · exact True.intro
  · split
    · exact hb.neg.defined
    · exact hkept
  · split
    · exact ha.defined
    · exact hkept
  · exact hkept

/-- A product with a literal factor is defined where the other factor is. -/
theorem HasValue.literalFactor (z : ℝ) (kept : Expr ℝ) (hb : b.HasValue point y)
    (hkept : kept.Defined point) :
    (if Arithmetic.isZero z then Expr.number Arithmetic.zero
      else if Arithmetic.equal z Arithmetic.one then b
      else if Arithmetic.equal z (-Arithmetic.one) then Simplified.neg b
      else kept).Defined point := by
  split
  · exact True.intro
  · split
    · exact hb.defined
    · split
      · exact hb.neg.defined
      · exact hkept

theorem HasValue.mul (ha : a.HasValue point x) (hb : b.HasValue point y) :
    (Simplified.mul a b).HasValue point (x * y) := by
  refine ⟨?_, by rw [Simplified.denote_mul, ha.denote_eq, hb.denote_eq]⟩
  have hkept := (HasValue.binary .mul ha hb (fun h => by cases h)).defined
  unfold Simplified.mul
  split
  · exact True.intro
  · exact HasValue.literalFactor _ _ hb hkept
  · exact HasValue.literalFactor _ _ ha hkept
  · exact hkept

theorem HasValue.div (ha : a.HasValue point x) (hb : b.HasValue point y) (h : y ≠ 0) :
    (Simplified.div a b).HasValue point (x / y) := by
  have hkept := HasValue.binary .div ha hb (fun _ => h)
  unfold Simplified.div
  split
  · rw [ha.eq_of_number, hb.eq_of_number, if_pos]
    · exact ⟨True.intro, rfl⟩
    · rw [Bool.not_eq_true', Bool.eq_false_iff, ne_eq, RealScalar.isZero_iff]
      exact h
  · split
    · next hzero =>
      rw [RealScalar.isZero_iff, ha.eq_of_number] at hzero
      rw [hzero, zero_div]
      exact HasValue.zero
    · exact hkept
  · split
    · next hone =>
      rw [RealScalar.equal_iff, RealScalar.one_eq, hb.eq_of_number] at hone
      rwa [hone, div_one]
    · exact hkept
  · exact hkept

theorem HasValue.pow (ha : a.HasValue point x) (hb : b.HasValue point y) :
    (Simplified.pow a b).HasValue point (x ^ y) := by
  have hkept := HasValue.binary .pow ha hb (fun h => by cases h)
  unfold Simplified.pow
  split
  · rw [ha.eq_of_number, hb.eq_of_number]
    exact ⟨True.intro, rfl⟩
  · split
    · next hzero =>
      -- The zeroth power is one, also of zero.
      rw [RealScalar.isZero_iff, hb.eq_of_number] at hzero
      rw [hzero, Real.rpow_zero]
      exact HasValue.one
    · split
      · next hone =>
        rw [RealScalar.equal_iff, RealScalar.one_eq, hb.eq_of_number] at hone
        rwa [hone, Real.rpow_one]
      · exact hkept
  · exact hkept

theorem HasValue.square (ha : a.HasValue point x) :
    (Simplified.pow a (Expr.number (Arithmetic.ofNat 2))).HasValue point (x ^ 2) := by
  have htwo : x ^ (Arithmetic.ofNat 2 : ℝ) = x ^ 2 := by
    rw [RealScalar.ofNat_eq, Nat.cast_ofNat, Real.rpow_two]
  exact htwo ▸ ha.pow (HasValue.number (Arithmetic.ofNat 2))

end Simplification

section Functions

/-- The derivative of a function is defined where the function is smooth, and denotes
    the slope of the function. -/
theorem hasDerivAt_function (function : String) (point : String → ℝ) (u : Expr ℝ) (x : ℝ)
    (hu : u.HasValue point x) (h : FunctionSmooth function x) :
    ∃ slope, (outerDerivative function u).HasValue point slope ∧
      HasDerivAt (functionValue function) slope x := by
  have hone : (Expr.number Arithmetic.one).HasValue point 1 := HasValue.one
  -- One minus the square of the argument, below the root of the inverse functions.
  have hroot : -1 < x ∧ x < 1 → 0 < 1 - x ^ 2 := fun h => by nlinarith [h.1, h.2]
  -- One case for each function, in the order of `FunctionSmooth`.
  unfold FunctionSmooth at h
  split at h
  case h_1 => exact ⟨_, hu.call "cos" True.intro, Real.hasDerivAt_sin x⟩
  case h_2 => exact ⟨_, (hu.call "sin" True.intro).neg, Real.hasDerivAt_cos x⟩
  case h_3 =>
    have hcos : functionValue "cos" x ^ 2 ≠ 0 := pow_ne_zero 2 h
    exact ⟨_, hone.div (hu.call "cos" True.intro).square hcos, Real.hasDerivAt_tan h⟩
  case h_4 =>
    have hpositive := hroot h
    have hsqrt : functionValue "sqrt" (1 - x ^ 2) ≠ 0 := (Real.sqrt_pos.mpr hpositive).ne'
    exact ⟨_, hone.div ((hone.sub hu.square).call "sqrt" hpositive.le) hsqrt,
      Real.hasDerivAt_arcsin h.1.ne' h.2.ne⟩
  case h_5 =>
    have hpositive := hroot h
    have hsqrt : functionValue "sqrt" (1 - x ^ 2) ≠ 0 := (Real.sqrt_pos.mpr hpositive).ne'
    exact ⟨_, (hone.div ((hone.sub hu.square).call "sqrt" hpositive.le) hsqrt).neg,
      Real.hasDerivAt_arccos h.1.ne' h.2.ne⟩
  case h_6 =>
    have hpositive : 1 + x ^ 2 ≠ 0 := by positivity
    exact ⟨_, hone.div (hone.add hu.square) hpositive, Real.hasDerivAt_arctan x⟩
  case h_7 =>
    have hsqrt : functionValue "sqrt" x ≠ 0 := (Real.sqrt_pos.mpr h).ne'
    have htwo : (Expr.number (Arithmetic.ofNat 2)).HasValue point 2 :=
      ⟨True.intro, RealScalar.ofNat_eq 2⟩
    exact ⟨_, hone.div (htwo.mul (hu.call "sqrt" h.le)) (mul_ne_zero two_ne_zero hsqrt),
      Real.hasDerivAt_sqrt h.ne'⟩
  case h_8 =>
    have habs : functionValue "abs" x ≠ 0 := abs_ne_zero.mpr h
    refine ⟨_, hu.div (hu.call "abs" True.intro) habs, ?_⟩
    have hsign : x / |x| = SignType.sign x := by
      rw [div_eq_iff (abs_ne_zero.mpr h), sign_mul_abs]
    exact hsign ▸ hasDerivAt_abs h
  case h_9 =>
    exact ⟨_, hone.div hu h.ne', one_div x ▸ Real.hasDerivAt_log h.ne'⟩
  case h_10 =>
    exact ⟨_, hone.div hu h.ne', one_div x ▸ Real.hasDerivAt_log h.ne'⟩
  case h_11 =>
    have hten : (Expr.number (Arithmetic.ofNat 10)).HasValue point 10 :=
      ⟨True.intro, RealScalar.ofNat_eq 10⟩
    have hlog : functionValue "ln" 10 ≠ 0 := (Real.log_pos (by norm_num)).ne'
    refine ⟨_, hone.div (hu.mul (hten.call "ln" (show (0 : ℝ) < 10 by norm_num)))
      (mul_ne_zero h.ne' hlog), ?_⟩
    have hslope : 1 / (x * Real.log 10) = x⁻¹ / Real.log 10 := by
      rw [one_div, mul_inv, div_eq_mul_inv]
    exact hslope ▸ (Real.hasDerivAt_log h.ne').div_const (Real.log 10)
  case h_12 => exact ⟨_, hu.call "exp" True.intro, Real.hasDerivAt_exp x⟩
  case h_13 => exact h.elim

end Functions

section Trees

/-- What a formula denotes as one of its symbols varies and the others are kept. -/
noncomputable def denoteAlong (target : String) (point : String → ℝ) (tree : Expr ℝ) (x : ℝ) : ℝ :=
  tree.denote (Function.update point target x)

@[simp]
theorem denoteAlong_self (target : String) (point : String → ℝ) (tree : Expr ℝ) :
    tree.denoteAlong target point (point target) = tree.denote point := by
  rw [denoteAlong, Function.update_eq_self]

/-- A formula that does not mention the symbol does not vary. -/
theorem denoteAlong_const (target : String) (point : String → ℝ) (tree : Expr ℝ)
    (h : tree.mentions target = false) :
    tree.denoteAlong target point = fun _ => tree.denote point := by
  funext x
  refine denote_congr _ _ tree (fun name hname => Function.update_of_ne ?_ x point)
  rintro rfl
  rw [h] at hname
  cases hname

/-- The derivative of a power is defined and denotes its slope, if the derivatives of
    the base and the exponent do. -/
theorem hasDerivAt_pow (target : String) (point : String → ℝ) (base exponent : Expr ℝ)
    (baseDerivative exponentDerivative : Expr ℝ) (baseSlope exponentSlope : ℝ)
    (hbase : base.HasValue point (base.denote point))
    (hexponent : exponent.HasValue point (exponent.denote point))
    (hbaseSlope : baseDerivative.HasValue point baseSlope)
    (hexponentSlope : exponentDerivative.HasValue point exponentSlope)
    (hbaseDeriv : HasDerivAt (base.denoteAlong target point) baseSlope (point target))
    (hexponentDeriv : HasDerivAt (exponent.denoteAlong target point) exponentSlope (point target))
    (h : 0 < base.denote point ∨ base.denote point ≠ 0 ∧ exponent.mentions target = false) :
    ∃ slope, (powerDerivative base exponent baseDerivative exponentDerivative
        (base.mentions target) (exponent.mentions target)).HasValue point slope ∧
      HasDerivAt ((binary .pow base exponent).denoteAlong target point) slope (point target) := by
  have hpower : (binary .pow base exponent).denoteAlong target point = fun x =>
      base.denoteAlong target point x ^ exponent.denoteAlong target point x := rfl
  have hnonzero : base.denote point ≠ 0 := h.elim (fun h => h.ne') And.left
  rw [hpower]
  cases hbaseVaries : base.mentions target <;> cases hexponentVaries : exponent.mentions target
  · -- Neither varies.
    rw [denoteAlong_const _ _ _ hbaseVaries, denoteAlong_const _ _ _ hexponentVaries]
    exact ⟨0, HasValue.zero, hasDerivAt_const _ _⟩
  · -- Only the exponent varies, so the base is positive.
    have hpositive : 0 < base.denote point := by
      refine h.elim id (fun h => ?_)
      rw [hexponentVaries] at h
      cases h.2
    refine ⟨_, ((hbase.pow hexponent).mul (hbase.call "ln" hpositive)).mul hexponentSlope, ?_⟩
    rw [denoteAlong_const _ _ _ hbaseVaries]
    have hderiv := hexponentDeriv.const_rpow hpositive
    rw [denoteAlong_self] at hderiv
    refine hderiv.congr_deriv ?_
    change _ = base.denote point ^ exponent.denote point * Real.log (base.denote point) *
      exponentSlope
    ring
  · -- Only the base varies.
    refine ⟨_, (hexponent.mul (hbase.pow (hexponent.sub HasValue.one))).mul hbaseSlope, ?_⟩
    rw [denoteAlong_const _ _ _ hexponentVaries]
    have hderiv := hbaseDeriv.rpow_const
      (p := exponent.denote point) (Or.inl (denoteAlong_self target point base ▸ hnonzero))
    rw [denoteAlong_self] at hderiv
    refine hderiv.congr_deriv ?_
    ring
  · -- Both vary.
    have hpositive : 0 < base.denote point := by
      refine h.elim id (fun h => ?_)
      rw [hexponentVaries] at h
      cases h.2
    refine ⟨_, (hbase.pow hexponent).mul ((hexponentSlope.mul (hbase.call "ln" hpositive)).add
      ((hexponent.mul hbaseSlope).div hbase hnonzero)), ?_⟩
    have hderiv := hbaseDeriv.rpow hexponentDeriv
      (denoteAlong_self target point base ▸ hpositive)
    rw [denoteAlong_self, denoteAlong_self, Real.rpow_sub_one hnonzero] at hderiv
    refine hderiv.congr_deriv ?_
    change _ = base.denote point ^ exponent.denote point *
      (exponentSlope * Real.log (base.denote point) +
        exponent.denote point * baseSlope / base.denote point)
    ring

/-- Where a formula is smooth, its derivative is defined and denotes the partial
    derivative. -/
theorem hasDerivAt_denote (target : String) (point : String → ℝ) (tree : Expr ℝ)
    (h : tree.Smooth target point) :
    ∃ slope, (tree.differentiate target).HasValue point slope ∧
      HasDerivAt (tree.denoteAlong target point) slope (point target) := by
  induction tree with
  | number value => exact ⟨0, HasValue.zero, hasDerivAt_const _ _⟩
  | symbol name =>
      by_cases hname : name = target
      · refine ⟨1, ?_, ?_⟩
        · rw [differentiate, if_pos hname]
          exact HasValue.one
        · have hid : (symbol name : Expr ℝ).denoteAlong target point = id := by
            funext x
            rw [denoteAlong, denote, hname, Function.update_self, id]
          rw [hid]
          exact hasDerivAt_id _
      · refine ⟨0, ?_, ?_⟩
        · rw [differentiate, if_neg hname]
          exact HasValue.zero
        · rw [denoteAlong_const target point _ (by simpa [mentions] using hname)]
          exact hasDerivAt_const _ _
  | binary op left right ihl ihr =>
      rcases h with ⟨hl, hr, hdivisor, hbase⟩
      rcases ihl hl with ⟨l, hleft, hlderiv⟩
      rcases ihr hr with ⟨r, hright, hrderiv⟩
      have hlvalue := hl.hasValue target point left
      have hrvalue := hr.hasValue target point right
      cases op with
      | add => exact ⟨_, hleft.add hright, hlderiv.add hrderiv⟩
      | sub => exact ⟨_, hleft.sub hright, hlderiv.sub hrderiv⟩
      | mul =>
          refine ⟨_, (hleft.mul hrvalue).add (hlvalue.mul hright), ?_⟩
          have hderiv := hlderiv.mul hrderiv
          rw [denoteAlong_self, denoteAlong_self] at hderiv
          exact hderiv
      | div =>
          have hnonzero := hdivisor rfl
          rw [differentiate]
          split
          · refine ⟨_, ((hleft.mul hrvalue).sub (hlvalue.mul hright)).div hrvalue.square
              (pow_ne_zero 2 hnonzero), ?_⟩
            have hderiv := hlderiv.div hrderiv (denoteAlong_self target point right ▸ hnonzero)
            rw [denoteAlong_self, denoteAlong_self] at hderiv
            exact hderiv
          · next hvaries =>
            -- A divisor that does not vary is kept.
            refine ⟨_, hleft.div hrvalue hnonzero, ?_⟩
            have hquotient : (binary .div left right).denoteAlong target point = fun x =>
                left.denoteAlong target point x / right.denoteAlong target point x := rfl
            rw [hquotient, denoteAlong_const target point right (Bool.eq_false_iff.mpr hvaries)]
            exact hlderiv.div_const _
      | pow =>
          rw [differentiate]
          exact hasDerivAt_pow target point left right _ _ l r hlvalue hrvalue hleft hright hlderiv
            hrderiv ((hbase rfl).imp id fun h => ⟨h.1, h.2.1⟩)
  | negate operand ih =>
      rcases ih h with ⟨slope, hslope, hderiv⟩
      exact ⟨_, hslope.neg, hderiv.neg⟩
  | call function argument ih =>
      rcases ih h.1 with ⟨inner, hinner, hderiv⟩
      rcases hasDerivAt_function function point argument _ (h.1.hasValue target point argument) h.2
        with ⟨outer, houter, hfunction⟩
      have hchain : HasDerivAt ((call function argument).denoteAlong target point) (outer * inner)
          (point target) := by
        rw [← denoteAlong_self target point argument] at hfunction
        exact hfunction.comp (point target) hderiv
      refine ⟨outer * inner, ?_, hchain⟩
      rw [differentiate]
      split
      · next hzero =>
        -- The argument does not vary at all.
        have hslope : inner = 0 := by
          rw [← hinner.denote_eq]
          revert hzero
          cases argument.differentiate target with
          | number value => exact (RealScalar.isZero_iff value).mp
          | _ => exact fun hzero => by cases hzero
        rw [hslope, mul_zero]
        exact HasValue.zero
      · exact houter.mul hinner

end Trees

/-- With plain numbers for its symbols, where it is smooth, a formula has the value
    that it denotes, and its derivative has the value of the partial derivative. -/
theorem evaluate_differentiate (tree : Expr ℝ) (target : String) (bindings : Bindings ℝ)
    (point : String → ℝ)
    (hplain : ∀ name, tree.mentions name = true →
      lookup bindings name = .ok (.number (point name)))
    (hsmooth : tree.Smooth target point) :
    tree.evaluate bindings = .ok (.number (tree.denote point)) ∧
      ∃ slope, (tree.differentiate target).evaluate bindings = .ok (.number slope) ∧
        HasDerivAt (fun x => tree.denote (Function.update point target x)) slope
          (point target) := by
  rcases hasDerivAt_denote target point tree hsmooth with ⟨slope, hslope, hderiv⟩
  -- A derivative mentions nothing that the formula does not mention.
  have hmentions : (tree.differentiate target).MentionsOnly fun name =>
      lookup bindings name = .ok (.number (point name)) :=
    MentionsOnly.differentiate target tree hplain
  refine ⟨evaluate_of_defined bindings point tree hplain
    (hsmooth.hasValue target point tree).defined, slope, ?_, hderiv⟩
  rw [evaluate_of_defined bindings point _ hmentions hslope.defined, hslope.denote_eq]

/-- The formula `ln (x ^ y) / x`. -/
noncomputable def logarithmOfPower : Expr ℝ :=
  .binary .div (.call "ln" (.binary .pow (.symbol "x") (.symbol "y"))) (.symbol "x")

/-- The derivative of `ln (x ^ y) / x` at `x = 2`, `y = 3`. -/
theorem evaluate_differentiate_logarithmOfPower :
    ∃ slope, (logarithmOfPower.differentiate "x").evaluate
        ((Bindings.empty.bind "x" (.number 2)).bind "y" (.number 3)) = .ok (.number slope) ∧
      HasDerivAt (fun x => Real.log (x ^ (3 : ℝ)) / x) slope 2 := by
  let point : String → ℝ := fun name => if name = "y" then 3 else 2
  have hplain : ∀ name, logarithmOfPower.mentions name = true →
      lookup ((Bindings.empty.bind "x" (.number 2)).bind "y" (.number 3)) name =
        .ok (.number (point name)) := by
    intro name hname
    simp only [logarithmOfPower, mentions, Bool.or_eq_true, decide_eq_true_eq] at hname
    rcases hname with (rfl | rfl) | rfl <;> rfl
  have hx : (0 : ℝ) < (symbol "x").denote point := show (0 : ℝ) < 2 by norm_num
  have hpower : (0 : ℝ) < (binary .pow (symbol "x") (symbol "y")).denote point :=
    Real.rpow_pos_of_pos hx _
  have hsmooth : logarithmOfPower.Smooth "x" point := by
    refine ⟨⟨⟨True.intro, True.intro, ?_, fun _ => Or.inl hx⟩, hpower⟩, True.intro,
      fun _ => hx.ne', ?_⟩
    · exact fun h => by cases h
    · exact fun h => by cases h
  exact (evaluate_differentiate logarithmOfPower "x" _ point hplain hsmooth).2

end Metrology.Expr
