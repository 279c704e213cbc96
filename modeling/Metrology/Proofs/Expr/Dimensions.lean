import Metrology.Proofs.Expr.Symbols
import Metrology.Proofs.Propagation.Units
import Metrology.Proofs.Unit.Measures

/-!
# Dimensions of formulas

A formula has a dimension if it has a value of that dimension, or else fails in a
way that has nothing to do with dimensions: powers of units may leave their range,
a divisor may be zero, and an argument may be outside of a function's domain.

Operations give formulas with dimensions from formulas with dimensions, by the
rules for products, quotients and powers. The rule for real powers asks for what
becomes of the powers in the unit of the base.

## Main definitions

* `EvalError.IsTolerated`: Failures that have nothing to do with dimensions.
* `Expr.HasDimension`: Formulas with a dimension.

## Theorems

* `Expr.HasDimension.add`, `Expr.HasDimension.mul`, `Expr.HasDimension.div`,
  `Expr.HasDimension.square`, `Expr.HasDimension.call`: The operations.
* `Expr.applyPower_dimension`: A power has the scaled dimension.
-/

namespace Metrology

open CompoundUnit (realPower? scaledPower? Measures)

variable {α : Type}

/-- Failures that have nothing to do with dimensions. -/
def EvalError.IsTolerated : EvalError α → Prop
  | .unit e => e.IsOverflow
  | .divisionByZero => True
  | .invalidArgument _ => True
  | .undefinedSymbol _ => False
  | .unknownFunction _ => False

namespace Expr

variable [Scalar α]

/-- A formula with a value of a dimension, or with a failure that has nothing to do with
    dimensions. -/
def HasDimension (bound : Bindings α) (tree : Expr α) (d : Dimension) : Prop :=
  Outcome.Yields (fun q => q.unit.Measures d) EvalError.IsTolerated (tree.evaluate bound)

variable {bound : Bindings α}

theorem hasDimension_of_evaluate (tree : Expr α) (q : Quantity α) (d : Dimension)
    (h : tree.evaluate bound = .ok q) (hq : q.unit.Measures d) : tree.HasDimension bound d := by
  rw [HasDimension, h]
  exact hq

theorem liftUnit_yields (outcome : Except (UnitError α) (Quantity α)) (d : Dimension)
    (h : Outcome.Yields (fun q => q.unit.Measures d) UnitError.IsOverflow outcome) :
    Outcome.Yields (fun q => q.unit.Measures d) EvalError.IsTolerated (liftUnit outcome) := by
  cases outcome with
  | ok q => exact h
  | error e => exact h

/-- A number beside a unit with a dimension. -/
theorem withUnit_yields (value : α) (unit : Except (UnitError α) (CompoundUnit α))
    (d : Dimension) (failure : UnitError α → Prop)
    (h : Outcome.Yields (fun result => result.Measures d) failure unit) :
    Outcome.Yields (fun q : Quantity α => q.unit.Measures d) failure
      (do return ⟨value, ← unit⟩) :=
  Outcome.Yields.bind _ _ _ h (fun _ hunit => hunit)

/-- Quantities of the same dimension can be added. -/
theorem checkSameDimension_ok (left right : CompoundUnit α) (d : Dimension)
    (hleft : left.Measures d) (hright : right.Measures d) :
    Quantity.checkSameDimension left right = .ok ⟨⟩ :=
  (Quantity.checkSameDimension_eq_ok left right ⟨⟩).mpr ⟨d, hleft.dimension_eq, hright.dimension_eq⟩

/-- A known function fails only on arguments outside of its domain. -/
theorem applyScalar_yields (function : String) (x : α)
    (hknown : applyScalar function x ≠ .error (.unknownFunction function)) :
    Outcome.Yields (fun _ => True) EvalError.IsTolerated (applyScalar function x) := by
  have hinverse : ∀ f : α → α,
      Outcome.Yields (fun _ => True) EvalError.IsTolerated (applyInverse function f x) := by
    intro f
    rw [applyInverse]
    split <;> exact True.intro
  have hlogarithm : ∀ f : α → α,
      Outcome.Yields (fun _ => True) EvalError.IsTolerated (applyLogarithm function f x) := by
    intro f
    rw [applyLogarithm]
    split <;> exact True.intro
  unfold applyScalar at hknown ⊢
  split at hknown <;> first
    | exact True.intro
    | exact hinverse _
    | exact hlogarithm _
    | exact absurd rfl hknown

namespace HasDimension

variable {l r : Expr α} {d e : Dimension}

theorem number (x : α) : (Expr.number x).HasDimension bound 0 :=
  CompoundUnit.measures_none

/-- A literal is a plain number. -/
theorem eq_zero (x : α) (h : (Expr.number x).HasDimension bound d) : d = 0 :=
  Measures.unique _ _ _ h CompoundUnit.measures_none

theorem negate (h : l.HasDimension bound d) : (Expr.negate l).HasDimension bound d :=
  Outcome.Yields.bind _ _ _ h (fun _ hq => hq)

/-- A sign changes nothing. -/
theorem of_negate (h : (Expr.negate l).HasDimension bound d) : l.HasDimension bound d := by
  rw [HasDimension, evaluate] at h
  rw [HasDimension]
  cases hl : l.evaluate bound with
  | ok q =>
      rw [hl] at h
      exact h
  | error e =>
      rw [hl] at h
      exact h

theorem binary (op : BinaryOp) (result : Dimension) (hl : l.HasDimension bound d)
    (hr : r.HasDimension bound e)
    (h : ∀ p q : Quantity α, p.unit.Measures d → q.unit.Measures e →
      Outcome.Yields (fun q => q.unit.Measures result) EvalError.IsTolerated (applyBinary op p q)) :
    (Expr.binary op l r).HasDimension bound result :=
  Outcome.Yields.bind _ _ _ hl fun p hp => Outcome.Yields.bind _ _ _ hr fun q hq => h p q hp hq

theorem add (hl : l.HasDimension bound d) (hr : r.HasDimension bound d) :
    (Expr.binary .add l r).HasDimension bound d := by
  refine binary .add d hl hr (fun p q hp hq => ?_)
  rw [applyBinary, Quantity.add, checkSameDimension_ok _ _ d hp hq]
  exact hp

theorem sub (hl : l.HasDimension bound d) (hr : r.HasDimension bound d) :
    (Expr.binary .sub l r).HasDimension bound d := by
  refine binary .sub d hl hr (fun p q hp hq => ?_)
  rw [applyBinary, Quantity.sub, checkSameDimension_ok _ _ d hp hq]
  exact hp

theorem mul (hl : l.HasDimension bound d) (hr : r.HasDimension bound e) :
    (Expr.binary .mul l r).HasDimension bound (d + e) :=
  binary .mul _ hl hr fun _ _ hp hq =>
    liftUnit_yields _ _ (withUnit_yields _ _ _ _ (hp.mul hq))

theorem div (hl : l.HasDimension bound d) (hr : r.HasDimension bound e) :
    (Expr.binary .div l r).HasDimension bound (d - e) := by
  refine binary .div _ hl hr (fun p q hp hq => ?_)
  rw [applyBinary, applyQuotient]
  split
  · exact True.intro
  · exact liftUnit_yields _ _ (withUnit_yields _ _ _ _ (hp.div hq))

end HasDimension

section Powers

/-- A power has the scaled dimension. -/
theorem applyPower_dimension [UnitScalar α] (p q : Quantity α) (x : α) (d e : Dimension)
    (hp : p.unit.Measures d) (hx : q.dimensionless = .ok x)
    (he : realPower? (scaledPower? · x) p.unit d = some e) :
    Outcome.Yields (fun result => result.unit.Measures e) EvalError.IsTolerated
      (applyPower p q) := by
  have hpower : Outcome.Yields (fun result => result.unit.Measures e) EvalError.IsTolerated
      (liftUnit (p.powReal q)) := by
    rw [Quantity.powReal, hx]
    exact liftUnit_yields _ _ (withUnit_yields _ _ _ _ (hp.powReal_of_eq _ _ _ x he))
  refine Outcome.Yields.bind _ _ _ hpower (fun result hresult => ?_)
  split
  · exact True.intro
  · exact hresult

/-- Where the dimension of a power comes from. -/
theorem realPower?_of_applyPower [UnitScalar α] (p q result : Quantity α) (d e : Dimension)
    (hp : p.unit.Measures d) (h : applyPower p q = .ok result) (hresult : result.unit.Measures e) :
    ∃ x, q.dimensionless = .ok x ∧ realPower? (scaledPower? · x) p.unit d = some e := by
  rw [applyPower_eq_ok, Quantity.powReal_eq_ok] at h
  rcases h with ⟨⟨x, hx, -, hunit⟩, -⟩
  rcases (CompoundUnit.Measures.powReal p.unit d hp x).value_of_ok _ _ hunit with
    ⟨found, hfound, hmeasures⟩
  exact ⟨x, hx, by rw [hfound, Measures.unique _ _ _ hmeasures hresult]⟩

theorem dimensionless_of_measures (q : Quantity α) (hq : q.unit.Measures 0) :
    q.dimensionless = .ok (CompoundUnit.none.ofBase q.value) :=
  (Quantity.dimensionless_eq_ok _ _).mpr ⟨hq.dimension_eq, rfl⟩

namespace HasDimension

variable {l : Expr α} {d : Dimension}

/-- The square of a formula. -/
theorem square [FoldingScalar α] (hl : l.HasDimension bound d) :
    (Expr.binary .pow l (.number (Arithmetic.ofNat 2))).HasDimension bound ((2 : ℤ) • d) := by
  refine Outcome.Yields.bind _ _ _ hl (fun p hp => ?_)
  refine applyPower_dimension p _ _ d _ hp
    (dimensionless_of_measures _ CompoundUnit.measures_none) ?_
  refine CompoundUnit.realPower?_multiple p.unit d _ 2 hp.exact (fun power hmem => ?_)
  have hbounds := hp.bounded _ _ power hmem
  exact FoldingScalar.scaledPower?_two power hbounds.1 hbounds.2

/-- The root of a plain number. -/
theorem sqrt [FoldingScalar α] (hl : l.HasDimension bound 0) :
    (Expr.call "sqrt" l).HasDimension bound 0 := by
  refine Outcome.Yields.bind _ _ _ hl (fun q hq => ?_)
  rw [applyFunction, if_pos rfl]
  split
  · exact True.intro
  · refine liftUnit_yields _ _ (withUnit_yields _ _ _ _ (hq.powReal_of_eq _ _ _ _ ?_))
    refine CompoundUnit.realPower?_half_zero q.unit _ hq.exact
      (UnitScalar.half_double 0 (by decide) (by decide)) (fun power hmem half => ?_)
    have hbounds := hq.bounded _ _ power hmem
    exact FoldingScalar.scaledPower?_half power half hbounds.1 hbounds.2

/-- A function of plain numbers. -/
theorem call (function : String) (hsqrt : function ≠ "sqrt") (habs : function ≠ "abs")
    (hknown : ∀ x : α, applyScalar function x ≠ .error (.unknownFunction function))
    (hl : l.HasDimension bound 0) : (Expr.call function l).HasDimension bound 0 := by
  refine Outcome.Yields.bind _ _ _ hl (fun q hq => ?_)
  rw [applyFunction, if_neg hsqrt, if_neg habs, dimensionless_of_measures q hq]
  exact Outcome.Yields.bind (applyScalar function _) _ _ (applyScalar_yields function _ (hknown _))
    (fun _ _ => CompoundUnit.measures_none)

end HasDimension

end Powers

end Expr

end Metrology
