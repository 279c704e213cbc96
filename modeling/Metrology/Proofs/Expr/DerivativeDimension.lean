import Metrology.Proofs.Expr.Dimensions

/-!
# Dimensions of derivatives

The derivative of a formula has the dimension of the formula, less that of the
variable. It loses it where it is simplified to the literal zero, which is a plain
number. Inside of a derivative such a zero does no harm: as a summand it is dropped,
and as a factor it makes the product a zero. So a derivative has the dimension that
it should have, unless it is the literal zero as a whole.

Only numbers can interfere with that. Where literals are folded to an infinity, a
product with zero is no zero. And an exponent less by one may make a unit power
fractional that the exponent itself makes an integer, within the tolerance with
which these are told apart.

## Main definitions

* `Expr.parts`: A formula and its operands, in any depth.
* `Expr.FitsDimension`: A zero, or a formula with a dimension.
* `Expr.SteadyPower`: An exponent that can be lowered by one.
* `Expr.Regular`: A formula in which numbers do not interfere.

## Theorems

* `Expr.FitsDimension.neg`, `Expr.FitsDimension.add`, `Expr.FitsDimension.sub`,
  `Expr.FitsDimension.mul`, `Expr.FitsDimension.div`: Simplified operations.
* `Expr.simplifiedPower_dimension`, `Expr.outerDerivative_dimension`: The factors of
  powers and functions.
* `Expr.fitsDimension_differentiate`: A derivative is a zero or has its dimension.
-/

namespace Metrology.Expr

open Arithmetic (isZero equal ofNat zero one)
open CompoundUnit (realPower? scaledPower? Measures)

variable {α : Type}

/-- A formula and its operands, in any depth. -/
def parts : Expr α → List (Expr α)
  | number value => [number value]
  | symbol name => [symbol name]
  | binary op left right => binary op left right :: (left.parts ++ right.parts)
  | negate operand => negate operand :: operand.parts
  | call function argument => call function argument :: argument.parts

theorem mem_parts_self (tree : Expr α) : tree ∈ tree.parts := by
  cases tree <;> exact List.mem_cons_self

theorem left_mem_parts (op : BinaryOp) (left right : Expr α) :
    left ∈ (binary op left right).parts :=
  List.mem_cons_of_mem _ (List.mem_append_left _ left.mem_parts_self)

theorem right_mem_parts (op : BinaryOp) (left right : Expr α) :
    right ∈ (binary op left right).parts :=
  List.mem_cons_of_mem _ (List.mem_append_right _ right.mem_parts_self)

/-- The parts of a part are parts. -/
theorem parts_subset (tree part : Expr α) (h : part ∈ tree.parts) : part.parts ⊆ tree.parts := by
  induction tree with
  | number value =>
      rw [List.mem_singleton.mp h]
      exact List.Subset.refl _
  | symbol name =>
      rw [List.mem_singleton.mp h]
      exact List.Subset.refl _
  | binary op left right ihl ihr =>
      rcases List.mem_cons.mp h with rfl | h
      · exact List.Subset.refl _
      · refine List.subset_cons_of_subset _ ?_
        rcases List.mem_append.mp h with h | h
        · exact List.subset_append_of_subset_left _ (ihl h)
        · exact List.subset_append_of_subset_right _ (ihr h)
  | negate operand ih =>
      rcases List.mem_cons.mp h with rfl | h
      · exact List.Subset.refl _
      · exact List.subset_cons_of_subset _ (ih h)
  | call function argument ih =>
      rcases List.mem_cons.mp h with rfl | h
      · exact List.Subset.refl _
      · exact List.subset_cons_of_subset _ (ih h)

variable [Scalar α]

/-- A zero, or a formula with a dimension. -/
def FitsDimension (bound : Bindings α) (tree : Expr α) (d : Dimension) : Prop :=
  tree.isZeroLiteral = true ∨ tree.HasDimension bound d

variable {bound : Bindings α} {a b : Expr α} {d e : Dimension}

theorem fitsDimension_number (x : α) :
    (number x).FitsDimension bound d ↔ isZero x = true ∨ d = 0 := by
  refine or_congr_right ⟨HasDimension.eq_zero x, fun h => ?_⟩
  rw [h]
  exact HasDimension.number x

namespace FitsDimension

/-- A plain number has no dimension, even if it is zero. -/
theorem plain (h : a.FitsDimension bound 0) : a.HasDimension bound 0 := by
  rcases h with h | h
  · cases a with
    | number x => exact HasDimension.number x
    | _ => cases h
  · exact h

theorem of_not_number (h : a.FitsDimension bound d) (hnumber : ∀ x, a = number x → False) :
    a.HasDimension bound d := by
  rcases h with h | h
  · cases a with
    | number x => exact (hnumber x rfl).elim
    | _ => cases h
  · exact h

theorem of_nonzero (x : α) (h : (number x).FitsDimension bound d) (hx : ¬ isZero x = true) :
    (number x).HasDimension bound d :=
  h.resolve_left hx

variable [FoldingScalar α]

theorem neg (ha : a.FitsDimension bound d) : (Simplified.neg a).FitsDimension bound d := by
  unfold Simplified.neg
  split
  · next x =>
    rw [fitsDimension_number] at ha ⊢
    exact ha.imp_left (FoldingScalar.isZero_neg x)
  · next operand => exact Or.inr (ha.of_not_number (by simp)).of_negate
  · next hnumber _ => exact Or.inr (ha.of_not_number hnumber).negate

theorem add (ha : a.FitsDimension bound d) (hb : b.FitsDimension bound d) :
    (Simplified.add a b).FitsDimension bound d := by
  unfold Simplified.add
  split
  · next x y =>
    rw [fitsDimension_number] at ha hb ⊢
    rcases ha with ha | ha
    · exact hb.imp_left (FoldingScalar.isZero_add x y ha)
    · exact Or.inr ha
  · next x hnumber =>
    split
    · exact hb
    · next hx => exact Or.inr ((ha.of_nonzero x hx).add (hb.of_not_number hnumber))
  · next y hnumber =>
    split
    · exact ha
    · next hy => exact Or.inr ((ha.of_not_number hnumber).add (hb.of_nonzero y hy))
  · next ha' hb' _ => exact Or.inr ((ha.of_not_number ha').add (hb.of_not_number hb'))

theorem sub (ha : a.FitsDimension bound d) (hb : b.FitsDimension bound d) :
    (Simplified.sub a b).FitsDimension bound d := by
  unfold Simplified.sub
  split
  · next x y =>
    rw [fitsDimension_number] at ha hb ⊢
    rcases ha with ha | ha
    · exact hb.imp_left (FoldingScalar.isZero_sub x y ha)
    · exact Or.inr ha
  · next x hnumber =>
    split
    · exact hb.neg
    · next hx => exact Or.inr ((ha.of_nonzero x hx).sub (hb.of_not_number hnumber))
  · next y hnumber =>
    split
    · exact ha
    · next hy => exact Or.inr ((ha.of_not_number hnumber).sub (hb.of_nonzero y hy))
  · next ha' hb' _ => exact Or.inr ((ha.of_not_number ha').sub (hb.of_not_number hb'))

/-- A product, if zero times a literal is folded to zero. -/
theorem mul (ha : a.FitsDimension bound d) (hb : b.FitsDimension bound e)
    (hfolds : ∀ x y : α, a = number x → b = number y → isZero x = true ∨ isZero y = true →
      isZero (x * y) = true) : (Simplified.mul a b).FitsDimension bound (d + e) := by
  have hzero : (number zero : Expr α).FitsDimension bound (d + e) :=
    Or.inl FoldingScalar.isZero_zero
  unfold Simplified.mul
  split
  · next x y =>
    rw [fitsDimension_number] at ha hb ⊢
    rcases ha with ha | ha
    · exact Or.inl (hfolds x y rfl rfl (Or.inl ha))
    · rcases hb with hb | hb
      · exact Or.inl (hfolds x y rfl rfl (Or.inr hb))
      · exact Or.inr (by rw [ha, hb, add_zero])
  · next x hnumber =>
    split
    · exact hzero
    · next hx =>
      have ha := ha.of_nonzero x hx
      -- A factor that is left out has no dimension.
      have hd := ha.eq_zero x
      split
      · rwa [hd, zero_add]
      · split
        · rw [hd, zero_add]
          exact hb.neg
        · exact Or.inr (ha.mul (hb.of_not_number hnumber))
  · next y hnumber =>
    split
    · exact hzero
    · next hy =>
      have hb := hb.of_nonzero y hy
      have he := hb.eq_zero y
      split
      · rwa [he, add_zero]
      · split
        · rw [he, add_zero]
          exact ha.neg
        · exact Or.inr ((ha.of_not_number hnumber).mul hb)
  · next ha' hb' _ => exact Or.inr ((ha.of_not_number ha').mul (hb.of_not_number hb'))

/-- A quotient, if zero is divided by finite literals only. -/
theorem div (ha : a.FitsDimension bound d) (hb : b.HasDimension bound e)
    (hfolds : ∀ x y : α, a = number x → b = number y → isZero x = true →
      Scalar.isFinite y = true) :
    (Simplified.div a b).FitsDimension bound (d - e) := by
  have hzero : (number zero : Expr α).FitsDimension bound (d - e) :=
    Or.inl FoldingScalar.isZero_zero
  unfold Simplified.div
  split
  · next x y =>
    have he := hb.eq_zero y
    split
    · next hy =>
      rw [Bool.not_eq_true'] at hy
      rw [fitsDimension_number] at ha ⊢
      rw [he, sub_zero]
      exact ha.imp_left (fun hx => FoldingScalar.isZero_div x y hx hy (hfolds x y rfl rfl hx))
    · split
      · exact hzero
      · next hx => exact Or.inr ((ha.of_nonzero x hx).div hb)
  · next x hnumber =>
    split
    · exact hzero
    · next hx => exact Or.inr ((ha.of_nonzero x hx).div hb)
  · next y hnumber =>
    have he := hb.eq_zero y
    split
    · rwa [he, sub_zero]
    · exact Or.inr ((ha.of_not_number hnumber).div hb)
  · next ha' _ _ => exact Or.inr ((ha.of_not_number ha').div hb)

/-- The reciprocal of a formula. -/
theorem reciprocal (hb : b.HasDimension bound e) :
    (Simplified.div (number one) b).FitsDimension bound (0 - e) := by
  refine div (Or.inr (HasDimension.number one)) hb (fun x y hx _ hzero => ?_)
  rw [number.injEq] at hx
  rw [← hx, FoldingScalar.isZero_one] at hzero
  cases hzero

end FitsDimension

section Rules

variable [FoldingScalar α]

/-- A square of anything but a literal stays a power. -/
theorem simplified_square (hnumber : ∀ x, a = number x → False) :
    Simplified.pow a (number (ofNat 2)) = binary .pow a (number (ofNat 2)) := by
  unfold Simplified.pow
  split
  · next x _ _ => exact (hnumber x rfl).elim
  · next y _ hy =>
    rw [number.injEq] at hy
    rw [← hy, if_neg (by rw [FoldingScalar.isZero_two]; exact Bool.false_ne_true),
      if_neg (by rw [FoldingScalar.equal_two_one]; exact Bool.false_ne_true)]
  · rfl

theorem square_dimension (ha : a.HasDimension bound d) :
    (Simplified.pow a (number (ofNat 2))).HasDimension bound ((2 : ℤ) • d) := by
  cases a with
  | number x =>
      rw [ha.eq_zero x, smul_zero]
      exact HasDimension.number _
  | _ =>
      rw [simplified_square (by simp)]
      exact ha.square

/-- The factor for a root. -/
theorem sqrt_derivative_dimension (hcall : (call "sqrt" a).HasDimension bound e) :
    (outerDerivative "sqrt" a).FitsDimension bound (0 - e) := by
  have htwo : ¬ isZero (ofNat 2 : α) = true := by
    rw [FoldingScalar.isZero_two]
    exact Bool.false_ne_true
  have hproduct : (Simplified.mul (number (ofNat 2)) (call "sqrt" a)).HasDimension bound e := by
    have hnumber : (number (ofNat 2) : Expr α).HasDimension bound 0 := HasDimension.number _
    have hfits := FitsDimension.mul (Or.inr hnumber) (Or.inr hcall) (fun x y _ hy => by cases hy)
    rw [zero_add] at hfits
    refine hfits.of_not_number (fun x hx => ?_)
    rw [Simplified.mul, if_neg htwo, FoldingScalar.equal_two_one,
      if_neg Bool.false_ne_true] at hx
    split at hx <;> cases hx
    simp
  exact FitsDimension.reciprocal hproduct

/-- The factor for an absolute value. -/
theorem abs_derivative_dimension (ha : a.HasDimension bound d)
    (hcall : (call "abs" a).HasDimension bound e) :
    (outerDerivative "abs" a).FitsDimension bound (d - e) :=
  FitsDimension.div (Or.inr ha) hcall (fun x y _ hy => by cases hy)

/-- The factor for a function of plain numbers is a plain number. -/
theorem plain_derivative_dimension (function : String) (x y : α)
    (h : applyScalar function x = .ok y) (ha : a.HasDimension bound 0) :
    (outerDerivative function a).FitsDimension bound 0 := by
  have hone : (number one : Expr α).FitsDimension bound 0 := Or.inr (HasDimension.number one)
  have hsquare : (Simplified.pow a (number (ofNat 2))).FitsDimension bound 0 := by
    have hdimension := square_dimension ha
    rw [smul_zero] at hdimension
    exact Or.inr hdimension
  have hinverse : ∀ tree : Expr α, tree.HasDimension bound 0 →
      (Simplified.div (number one) tree).FitsDimension bound 0 := by
    intro tree htree
    have hreciprocal := FitsDimension.reciprocal htree
    rwa [sub_zero] at hreciprocal
  have hcos := ha.call "cos" (by decide) (by decide) (fun x => by simp [applyScalar])
  have hln : (call "ln" (number (ofNat 10)) : Expr α).HasDimension bound 0 :=
    (HasDimension.number _).call "ln" (by decide) (by decide) (fun x => by
      rw [applyScalar, applyLogarithm]
      split <;> simp)
  -- One case for each function, in the order of `applyScalar`.
  unfold applyScalar at h
  split at h
  · exact Or.inr hcos
  · exact FitsDimension.neg
      (Or.inr (ha.call "sin" (by decide) (by decide) (fun x => by simp [applyScalar])))
  · refine hinverse _ ?_
    have hdimension := square_dimension hcos
    rwa [smul_zero] at hdimension
  · exact hinverse _ (hone.sub hsquare).plain.sqrt
  · exact (hinverse _ (hone.sub hsquare).plain.sqrt).neg
  · exact hinverse _ (hone.add hsquare).plain
  · exact hinverse _ ha
  · exact hinverse _ ha
  · have hproduct := FitsDimension.mul (Or.inr ha) (Or.inr hln) (fun x y _ hy => by cases hy)
    rw [zero_add] at hproduct
    exact hinverse _ hproduct.plain
  · exact Or.inr (ha.call "exp" (by decide) (by decide) (fun x => by simp [applyScalar]))
  · cases h

/-- The factor of a known function, in the derivative of a call. -/
theorem outerDerivative_dimension (function : String) (p q : Quantity α)
    (ha : a.evaluate bound = .ok p) (hp : p.unit.Measures d)
    (h : applyFunction function p = .ok q) (hq : q.unit.Measures e) :
    (outerDerivative function a).FitsDimension bound (e - d) := by
  have hargument := hasDimension_of_evaluate a p d ha hp
  have hcall : (call function a).HasDimension bound e := by
    refine hasDimension_of_evaluate _ q e ?_ hq
    rw [evaluate, ha]
    exact h
  rw [applyFunction_eq_ok] at h
  split at h
  · next hsqrt =>
    subst hsqrt
    -- The derivative divides by the root itself.
    have hdouble : (2 : ℤ) • e = d := by
      rcases (hp.powReal p.unit d _).value_of_ok _ _ ((Quantity.sqrt_eq_ok p q).mp h.2).2 with
        ⟨half, hhalf, hmeasures⟩
      rw [Measures.unique _ _ _ hq hmeasures]
      refine CompoundUnit.two_smul_of_half p.unit d _ hp.exact (fun power hmem scaled => ?_) half
        hhalf
      have hbounds := hp.bounded _ _ power hmem
      exact FoldingScalar.scaledPower?_half power scaled hbounds.1 hbounds.2
    have hdimension : 0 - e = e - d := by
      rw [← hdouble]
      module
    exact hdimension ▸ sqrt_derivative_dimension hcall
  · split at h
    · next habs =>
      subst habs
      have hsame : e = d := by
        rw [h] at hq
        exact Measures.unique _ _ _ hq hp
      subst hsame
      exact abs_derivative_dimension hargument hcall
    · rcases h with ⟨x, y, hx, hy, rfl⟩
      have he : e = 0 := Measures.unique _ _ _ hq CompoundUnit.measures_none
      have hd : d = 0 := by
        rw [Quantity.dimensionless_eq_ok] at hx
        exact Except.ok.inj (hp.dimension_eq.symm.trans hx.1)
      subst hd he
      rw [sub_zero]
      exact plain_derivative_dimension function x y hy hargument

/-- A simplified power. An exponent of zero or one is left out, which changes no
    dimension. -/
theorem simplifiedPower_dimension (base exponent : Expr α) (p q : Quantity α)
    (hbase : base.evaluate bound = .ok p) (hp : p.unit.Measures d)
    (hexponent : exponent.evaluate bound = .ok q) (hq : q.unit.Measures 0)
    (he : realPower? (scaledPower? · (CompoundUnit.none.ofBase q.value)) p.unit d = some e) :
    (Simplified.pow base exponent).HasDimension bound e := by
  have hpower : (binary .pow base exponent).HasDimension bound e := by
    rw [HasDimension, evaluate, hbase, hexponent]
    exact applyPower_dimension p q _ d e hp (dimensionless_of_measures q hq) he
  have hscaled : ∀ n : Int, (∀ power, -128 ≤ power → power ≤ 127 →
      scaledPower? power (CompoundUnit.none.ofBase q.value) = some (power * n)) → n • d = e := by
    intro n hn
    have hmultiple := CompoundUnit.realPower?_multiple p.unit d
      (scaledPower? · (CompoundUnit.none.ofBase q.value)) n hp.exact (fun power hmem =>
        hn power (hp.bounded _ _ power hmem).1 (hp.bounded _ _ power hmem).2)
    rw [he, Option.some.injEq] at hmultiple
    exact hmultiple.symm
  unfold Simplified.pow
  split
  · next x y =>
    have hliteral : p = .number x := (Except.ok.inj hbase).symm
    subst hliteral
    have hsum : e = 0 := by
      rw [Measures.unique _ _ _ hp CompoundUnit.measures_none] at he
      exact (Option.some.inj he).symm
    rw [hsum]
    exact HasDimension.number _
  · next y hnumber =>
    have hliteral : q = .number y := (Except.ok.inj hexponent).symm
    subst hliteral
    split
    · next hzero =>
      rw [← hscaled 0 (fun power hlow hhigh => by
        rw [mul_zero]
        exact FoldingScalar.scaledPower?_zero power y hlow hhigh hzero), zero_smul]
      exact HasDimension.number _
    · split
      · next hequal =>
        rw [← hscaled 1 (fun power hlow hhigh => by
          rw [mul_one]
          exact FoldingScalar.scaledPower?_one power y hlow hhigh hequal), one_smul]
        exact hasDimension_of_evaluate _ p d hbase hp
      · exact hpower
  · exact hpower

/-- The value of an exponent lowered by one. -/
theorem loweredExponent_evaluate (exponent : Expr α) (q : Quantity α)
    (h : exponent.evaluate bound = .ok q) (hq : q.unit.Measures 0) :
    (Simplified.sub exponent (number one)).evaluate bound = .ok ⟨q.value - one, q.unit⟩ := by
  have hdifference : (binary .sub exponent (number one)).evaluate bound =
      .ok ⟨q.value - one, q.unit⟩ := by
    rw [evaluate, h]
    change applyBinary .sub q (.number one) = _
    rw [applyBinary, liftUnit_eq_ok, Quantity.sub_eq_ok]
    exact ⟨⟨0, hq.dimension_eq, rfl⟩, rfl⟩
  cases exponent with
  | number y =>
      have hliteral : q = .number y := (Except.ok.inj h).symm
      subst hliteral
      rfl
  | _ =>
      rw [Simplified.sub, if_neg (by rw [FoldingScalar.isZero_one]; exact Bool.false_ne_true)]
      · exact hdifference
      · simp

end Rules

/-- An exponent that can be lowered by one: that takes one power away from each power of
    the base. -/
def SteadyPower (bound : Bindings α) (base exponent : Expr α) : Prop :=
  ∀ p q d, base.evaluate bound = .ok p → exponent.evaluate bound = .ok q →
    p.unit.dimension = .ok d → ∀ power ∈ p.unit.allPowers d,
      scaledPower? power (CompoundUnit.none.ofBase (q.value - one)) =
        (scaledPower? power (CompoundUnit.none.ofBase q.value)).map (· - power)

/-- A formula in which numbers do not interfere with dimensions: its literals and those
    that derivatives are folded to are finite, and its exponents can be lowered. -/
structure Regular (bound : Bindings α) (target : String) (tree : Expr α) : Prop where
  finite_literal : ∀ x, number x ∈ tree.parts → Scalar.isFinite x = true
  finite_derivative : ∀ part ∈ tree.parts, ∀ x, part.differentiate target = number x →
    Scalar.isFinite x = true
  steady : ∀ base exponent, binary .pow base exponent ∈ tree.parts →
    SteadyPower bound base exponent

/-- No exponent varies with a symbol. -/
def FixedExponents (symbol : String) (tree : Expr α) : Prop :=
  ∀ base exponent, binary .pow base exponent ∈ tree.parts → exponent.mentions symbol = false

theorem Regular.part (target : String) (tree part : Expr α) (h : tree.Regular bound target)
    (hpart : part ∈ tree.parts) : part.Regular bound target where
  finite_literal x hx := h.finite_literal x (parts_subset tree part hpart hx)
  finite_derivative other hother := h.finite_derivative other (parts_subset tree part hpart hother)
  steady base exponent hmem := h.steady base exponent (parts_subset tree part hpart hmem)

omit [Scalar α] in
theorem FixedExponents.part (target : String) (tree part : Expr α) (h : tree.FixedExponents target)
    (hpart : part ∈ tree.parts) : part.FixedExponents target :=
  fun base exponent hmem => h base exponent (parts_subset tree part hpart hmem)

/-- Only a power with an exponent of zero is simplified to a literal. -/
theorem simplifiedPower_literal (base exponent : Expr α) (y : α)
    (hnumber : ∀ x, base = number x → False) (h : Simplified.pow base exponent = number y) :
    y = one := by
  unfold Simplified.pow at h
  split at h
  · next x _ => exact (hnumber x rfl).elim
  · split at h
    · exact (number.inj h).symm
    · split at h
      · exact (hnumber y h).elim
      · cases h
  · cases h

variable [FoldingScalar α]

/-- The factor of a power whose exponent does not vary. -/
theorem powerFactor_dimension (base exponent : Expr α) (p q result : Quantity α)
    (hbase : base.evaluate bound = .ok p) (hp : p.unit.Measures d)
    (hexponent : exponent.evaluate bound = .ok q) (hq : ∃ f, q.unit.Measures f)
    (h : applyPower p q = .ok result) (hresult : result.unit.Measures e)
    (hsteady : SteadyPower bound base exponent)
    (hnumber : ∀ x, base = number x → False)
    (hfinite : ∀ x, exponent = number x → Scalar.isFinite x = true) :
    (Simplified.mul exponent
      (Simplified.pow base (Simplified.sub exponent (number one)))).FitsDimension bound (e - d) := by
  rcases realPower?_of_applyPower p q result d e hp h hresult with ⟨x, hx, he⟩
  rw [Quantity.dimensionless_eq_ok] at hx
  -- An exponent that was accepted is a plain number.
  have hq : q.unit.Measures 0 := by
    rcases hq with ⟨f, hq⟩
    exact ⟨hq.tidy, hx.1⟩
  have hlowered : realPower? (scaledPower? · (CompoundUnit.none.ofBase (q.value - one))) p.unit d =
      some (e - d) := by
    rw [CompoundUnit.realPower?_sub_one p.unit d _ _ hp.exact
      (hsteady p q d hbase hexponent hp.dimension_eq), ← hx.2, he]
    rfl
  have hpower := simplifiedPower_dimension base _ p _ hbase hp
    (loweredExponent_evaluate exponent q hexponent hq) hq hlowered
  have hproduct := FitsDimension.mul (Or.inr (hasDimension_of_evaluate exponent q 0 hexponent hq))
    (Or.inr hpower) (fun x y hx hy hzero => ?_)
  · rwa [zero_add] at hproduct
  · rw [simplifiedPower_literal base _ y hnumber hy] at hzero ⊢
    exact FoldingScalar.isZero_mul x one hzero
      (Or.inl ⟨hfinite x hx, FoldingScalar.isFinite_one⟩)

/-- The derivative of an operation, given those of its operands. -/
theorem binaryDerivative_dimension (op : BinaryOp) (left right : Expr α) (target : String)
    (p q result : Quantity α) (b c : Dimension)
    (hfixed : (binary op left right).FixedExponents target)
    (hregular : (binary op left right).Regular bound target)
    (hleft : left.evaluate bound = .ok p) (hp : p.unit.Measures b)
    (hright : right.evaluate bound = .ok q) (hq : q.unit.Measures c)
    (hl : (left.differentiate target).FitsDimension bound (b - d))
    (hr : (right.differentiate target).FitsDimension bound (c - d))
    (h : applyBinary op p q = .ok result) (hresult : result.unit.Measures e) :
    ((binary op left right).differentiate target).FitsDimension bound (e - d) := by
  have hldim := hasDimension_of_evaluate left p b hleft hp
  have hrdim := hasDimension_of_evaluate right q c hright hq
  have hlpart := left_mem_parts op left right
  have hrpart := right_mem_parts op left right
  -- The terms of a product, and of the dividend in a quotient.
  have hfirst : (Simplified.mul (left.differentiate target) right).FitsDimension bound
      (b + c - d) := by
    have hproduct := FitsDimension.mul hl (Or.inr hrdim) (fun x y hx hy hzero =>
      FoldingScalar.isZero_mul x y hzero (Or.inl ⟨hregular.finite_derivative left hlpart x hx,
        hregular.finite_literal y (hy ▸ hrpart)⟩))
    rwa [sub_add_eq_add_sub] at hproduct
  have hsecond : (Simplified.mul left (right.differentiate target)).FitsDimension bound
      (b + c - d) := by
    have hproduct := FitsDimension.mul (Or.inr hldim) hr (fun x y hx hy hzero =>
      FoldingScalar.isZero_mul x y hzero (Or.inl ⟨hregular.finite_literal x (hx ▸ hlpart),
        hregular.finite_derivative right hrpart y hy⟩))
    rwa [← add_sub_assoc] at hproduct
  have hsum : (∃ f, p.dimension = .ok f ∧ q.dimension = .ok f) → b = c := by
    rintro ⟨f, hpf, hqf⟩
    exact (Except.ok.inj (hp.dimension_eq.symm.trans hpf)).trans
      (Except.ok.inj (hqf.symm.trans hq.dimension_eq))
  cases op with
  | add =>
      rw [applyBinary, liftUnit_eq_ok, Quantity.add_eq_ok] at h
      rw [← hsum h.1] at hr
      rw [h.2] at hresult
      rw [Measures.unique _ _ _ hresult hp]
      exact hl.add hr
  | sub =>
      rw [applyBinary, liftUnit_eq_ok, Quantity.sub_eq_ok] at h
      rw [← hsum h.1] at hr
      rw [h.2] at hresult
      rw [Measures.unique _ _ _ hresult hp]
      exact hl.sub hr
  | mul =>
      rw [applyBinary, liftUnit_eq_ok, Quantity.mul_eq_ok] at h
      rw [Measures.unique _ _ _ hresult ((hp.mul hq).value_of_ok _ _ h.2)]
      exact hfirst.add hsecond
  | div =>
      rw [applyBinary, applyQuotient_eq_ok, Quantity.div_eq_ok] at h
      rw [Measures.unique _ _ _ hresult ((hp.div hq).value_of_ok _ _ h.2.2), differentiate]
      split
      · next hvaries =>
        -- A divisor that varies is no literal, and neither is its square.
        have hnumber : ∀ x, right = number x → False := fun x hx => by
          rw [hx] at hvaries
          cases hvaries
        have hquotient := (hfirst.sub hsecond).div (square_dimension hrdim) (fun x y _ hy => by
          rw [simplified_square hnumber] at hy
          cases hy)
        have hdimension : b + c - d - (2 : ℤ) • c = b - c - d := by module
        rwa [hdimension] at hquotient
      · have hquotient := hl.div hrdim (fun x y _ hy _ => hregular.finite_literal y (hy ▸ hrpart))
        rwa [sub_right_comm] at hquotient
  | pow =>
      rw [differentiate, hfixed left right (mem_parts_self _)]
      cases hvaries : left.mentions target with
      | false => exact Or.inl FoldingScalar.isZero_zero
      | true =>
          have hnumber : ∀ x, left = number x → False := fun x hx => by
            rw [hx] at hvaries
            cases hvaries
          have hfactor := powerFactor_dimension left right p q result hleft hp hright ⟨c, hq⟩ h
            hresult (hregular.steady left right (mem_parts_self _)) hnumber
            (fun x hx => hregular.finite_literal x (hx ▸ hrpart))
          have hproduct := hfactor.mul hl (fun x y hx hy hzero => ?_)
          · rwa [sub_add_sub_cancel] at hproduct
          · -- Two literals are folded to the derivative of the power, which is finite.
            refine FoldingScalar.isZero_mul x y hzero (Or.inr (hregular.finite_derivative _
              (mem_parts_self _) _ ?_))
            rw [differentiate, hfixed left right (mem_parts_self _), hvaries, powerDerivative, hx,
              hy]
            rfl

/-- A derivative is a zero, or it has the dimension of the formula less that of the
    variable, or fails in a way that has nothing to do with dimensions. -/
theorem fitsDimension_differentiate (hbound : bound.Derived) (target : String) (v : Quantity α)
    (hv : lookup bound target = .ok v) (hd : v.unit.Measures d) (tree : Expr α)
    (hfixed : tree.FixedExponents target) (hregular : tree.Regular bound target) :
    ∀ q e, tree.evaluate bound = .ok q → q.unit.Measures e →
      (tree.differentiate target).FitsDimension bound (e - d) := by
  have hzero : ∀ f : Dimension, (number zero : Expr α).FitsDimension bound f :=
    fun f => Or.inl FoldingScalar.isZero_zero
  have hmeasures : ∀ (part : Expr α) (p : Quantity α), part.evaluate bound = .ok p →
      ∃ b, p.unit.Measures b :=
    fun part p hp => (evaluate_derived bound hbound part p hp).wellFormed.measures
  induction tree with
  | number value => exact fun q e _ _ => hzero _
  | symbol name =>
      intro q e h he
      rw [differentiate]
      split
      · next hsame =>
        subst hsame
        have hq : v = q := Except.ok.inj (hv.symm.trans h)
        rw [Measures.unique _ _ _ he (hq ▸ hd), sub_self]
        exact Or.inr (HasDimension.number one)
      · exact hzero _
  | binary op left right ihl ihr =>
      intro result e h he
      have hleft := left_mem_parts op left right
      have hright := right_mem_parts op left right
      rw [evaluate, Outcome.bind_eq_ok] at h
      rcases h with ⟨p, hp, h⟩
      rw [Outcome.bind_eq_ok] at h
      rcases h with ⟨q, hq, h⟩
      rcases hmeasures left p hp with ⟨b, hb⟩
      rcases hmeasures right q hq with ⟨c, hc⟩
      exact binaryDerivative_dimension op left right target p q result b c hfixed hregular hp hb hq
        hc (ihl (hfixed.part target _ left hleft) (hregular.part target _ left hleft) p b hp hb)
        (ihr (hfixed.part target _ right hright) (hregular.part target _ right hright) q c hq hc)
        h he
  | negate operand ih =>
      intro q e h he
      have hoperand : operand ∈ (negate operand).parts :=
        List.mem_cons_of_mem _ operand.mem_parts_self
      rw [evaluate, Outcome.bind_eq_ok] at h
      rcases h with ⟨p, hp, h⟩
      rw [Outcome.pure_eq_ok] at h
      subst h
      exact (ih (hfixed.part target _ operand hoperand) (hregular.part target _ operand hoperand)
        p e hp he).neg
  | call function argument ih =>
      intro q e h he
      have hargument : argument ∈ (call function argument).parts :=
        List.mem_cons_of_mem _ argument.mem_parts_self
      rw [evaluate, Outcome.bind_eq_ok] at h
      rcases h with ⟨p, hp, h⟩
      rcases hmeasures argument p hp with ⟨b, hb⟩
      have hinner := ih (hfixed.part target _ argument hargument)
        (hregular.part target _ argument hargument) p b hp hb
      have houter := outerDerivative_dimension function p q hp hb h he
      rw [differentiate]
      split
      · -- An argument that does not vary leaves the literal zero, whatever its dimension.
        exact hzero _
      · next hnonzero =>
        have hproduct := houter.mul hinner (fun x y hx hy hzero => ?_)
        · rwa [sub_add_sub_cancel] at hproduct
        · refine FoldingScalar.isZero_mul x y hzero (Or.inr (hregular.finite_derivative _
            (mem_parts_self _) _ ?_))
          rw [differentiate, if_neg hnonzero, hx, hy]
          rfl

end Metrology.Expr
