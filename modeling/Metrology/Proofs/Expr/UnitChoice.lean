import Metrology.Proofs.Expr.DerivativeDimension
import Metrology.Proofs.Unit.ExactPowers

/-!
# Formulas and the choice of units

What a formula gives does not depend on the units that its symbols are expressed in. A
quantity keeps its number in coherent SI units, and the operations ask a unit for nothing
but its dimension. So two evaluations, in which every symbol stands for the same quantity
in some unit, go side by side. Powers of units may leave their range in one of them only,
and that ends the comparison.

Powers are where units could show. An exponent that multiplies powers as a number does
gives all units of a dimension powers of one dimension, or none of them. The exceptions
are infinite and undefined exponents, and there is a defect: for `x = 0.5` the formula
`x^1e999` has a value, and for `x = 0.5 rad` it fails with a fractional power, although
both are the same plain number. `evaluate_inOtherUnits` says that two evaluations agree, or
else that they meet such an exponent, and a base that carries units in one of them only.

## Main definitions

* `Quantity.Alike`: One quantity, in two units perhaps.
* `EvalError.SameKind`: Failures that are equal up to units.
* `Quantity.Matches`: Alike quantities whose units are in order.

## Theorems

* `Expr.applyBinary_parallel`, `Expr.applyPower_parallel`, `Expr.applyFunction_parallel`:
  The operations go side by side.
* `Expr.evaluate_parallel`: Evaluations go side by side.
* `Expr.evaluate_inOtherUnits`: Evaluations agree but for the defect.
-/

namespace Metrology

open CompoundUnit (Measures ActsAs Unscalable)
open Outcome (Parallel Agree)

variable {α : Type}

/-- One quantity, in two units perhaps: the same number of coherent SI units, and the same
    dimension. -/
structure Quantity.Alike (p q : Quantity α) : Prop where
  value_eq : p.value = q.value
  dimension_eq : p.dimension = q.dimension

/-- Powers of units that left their range. -/
def EvalError.IsOverflow : EvalError α → Prop
  | .unit e => e.IsOverflow
  | _ => False

/-- Failures that are equal up to the units that they name. -/
inductive EvalError.SameKind : EvalError α → EvalError α → Prop
  | refl (e : EvalError α) : SameKind e e
  | unit (e e' : UnitError α) (h : e.SameKind e') : SameKind (.unit e) (.unit e')
  | powerNotReal (base exponent base' exponent' : Quantity α) :
      SameKind (.invalidArgument (.powerNotReal base exponent))
        (.invalidArgument (.powerNotReal base' exponent'))

variable [Scalar α]

/-- Alike quantities whose units are in order. -/
def Quantity.Matches (p q : Quantity α) : Prop :=
  p.value = q.value ∧ ∃ d, p.unit.Measures d ∧ q.unit.Measures d

namespace Quantity

theorem Matches.alike (p q : Quantity α) (h : p.Matches q) : p.Alike q := by
  rcases h with ⟨hvalue, d, hp, hq⟩
  exact ⟨hvalue, hp.dimension_eq.trans hq.dimension_eq.symm⟩

theorem Alike.matches_of_derived [UnitScalar α] (p q : Quantity α) (h : p.Alike q)
    (hp : p.unit.Derived) (hq : q.unit.Derived) : p.Matches q := by
  rcases hp.wellFormed.measures with ⟨d, hd⟩
  exact ⟨h.value_eq, d, hd, hq.wellFormed.tidy, h.dimension_eq.symm.trans hd.dimension_eq⟩

theorem matches_number (x : α) : (number x).Matches (number x) :=
  ⟨rfl, 0, CompoundUnit.measures_none, CompoundUnit.measures_none⟩

/-- Whether two units have the same dimension is a question of their dimensions. -/
theorem checkSameDimension_of_measures (left right : CompoundUnit α) (d e : Dimension)
    (hleft : left.Measures d) (hright : right.Measures e) :
    checkSameDimension left right =
      if d = e then .ok ⟨⟩ else .error (.dimensionMismatch left right) := by
  by_cases hsame : d = e
  · rw [if_pos hsame]
    exact Expr.checkSameDimension_ok left right d hleft (hsame ▸ hright)
  · rw [if_neg hsame, checkSameDimension, hleft.dimension_eq, hright.dimension_eq]
    simp [bind, Except.bind, hsame]

theorem checkSameDimension_parallel (left right left' right' : CompoundUnit α) (d e : Dimension)
    (hleft : left.Measures d) (hright : right.Measures e) (hleft' : left'.Measures d)
    (hright' : right'.Measures e) :
    Parallel UnitError.IsOverflow (fun _ _ => d = e) UnitError.SameKind
      (checkSameDimension left right) (checkSameDimension left' right') := by
  rw [checkSameDimension_of_measures left right d e hleft hright,
    checkSameDimension_of_measures left' right' d e hleft' hright']
  by_cases hsame : d = e
  · rw [if_pos hsame, if_pos hsame]
    exact Parallel.ok _ _ hsame
  · rw [if_neg hsame, if_neg hsame]
    exact Parallel.error _ _ (.mismatch left right left' right')

/-- A number beside units that go side by side. -/
theorem withUnit_parallel (value value' : α) (hvalue : value = value')
    (unit unit' : Except (UnitError α) (CompoundUnit α))
    (h : Parallel UnitError.IsOverflow (fun u u' => ∃ d, u.Measures d ∧ u'.Measures d)
      UnitError.SameKind unit unit') :
    Parallel UnitError.IsOverflow Matches UnitError.SameKind
      (do return ⟨value, ← unit⟩) (do return ⟨value', ← unit'⟩) :=
  Parallel.bind _ _ _ _ _ h fun u u' _ _ hmeasures =>
    Parallel.ok (⟨value, u⟩ : Quantity α) (⟨value', u'⟩ : Quantity α) ⟨hvalue, hmeasures⟩

variable {p q p' q' : Quantity α}

theorem add_parallel (hp : p.Matches p') (hq : q.Matches q') :
    Parallel UnitError.IsOverflow Matches UnitError.SameKind (p.add q) (p'.add q') := by
  rcases hp with ⟨hpvalue, d, hpd, hpd'⟩
  rcases hq with ⟨hqvalue, e, hqe, hqe'⟩
  refine Parallel.bind _ _ _ _ _ (checkSameDimension_parallel _ _ _ _ d e hpd hqe hpd' hqe')
    (fun _ _ _ _ _ => Parallel.ok _ _ ⟨?_, d, hpd, hpd'⟩)
  rw [hpvalue, hqvalue]

theorem sub_parallel (hp : p.Matches p') (hq : q.Matches q') :
    Parallel UnitError.IsOverflow Matches UnitError.SameKind (p.sub q) (p'.sub q') := by
  rcases hp with ⟨hpvalue, d, hpd, hpd'⟩
  rcases hq with ⟨hqvalue, e, hqe, hqe'⟩
  refine Parallel.bind _ _ _ _ _ (checkSameDimension_parallel _ _ _ _ d e hpd hqe hpd' hqe')
    (fun _ _ _ _ _ => Parallel.ok _ _ ⟨?_, d, hpd, hpd'⟩)
  rw [hpvalue, hqvalue]

theorem mul_parallel (hp : p.Matches p') (hq : q.Matches q') :
    Parallel UnitError.IsOverflow Matches UnitError.SameKind (p.mul q) (p'.mul q') := by
  rcases hp with ⟨hpvalue, d, hpd, hpd'⟩
  rcases hq with ⟨hqvalue, e, hqe, hqe'⟩
  exact withUnit_parallel _ _ (by rw [hpvalue, hqvalue]) _ _
    (Parallel.of_yields _ _ _ _ (hpd.mul hqe) (hpd'.mul hqe') fun u u' hu hu' => ⟨_, hu, hu'⟩)

theorem div_parallel (hp : p.Matches p') (hq : q.Matches q') :
    Parallel UnitError.IsOverflow Matches UnitError.SameKind (p.div q) (p'.div q') := by
  rcases hp with ⟨hpvalue, d, hpd, hpd'⟩
  rcases hq with ⟨hqvalue, e, hqe, hqe'⟩
  exact withUnit_parallel _ _ (by rw [hpvalue, hqvalue]) _ _
    (Parallel.of_yields _ _ _ _ (hpd.div hqe) (hpd'.div hqe') fun u u' hu hu' => ⟨_, hu, hu'⟩)

/-- Either is the same plain number. -/
theorem dimensionless_parallel (hq : q.Matches q') :
    Parallel UnitError.IsOverflow (fun x x' => x = x' ∧ q.dimensionless = .ok x) UnitError.SameKind
      q.dimensionless q'.dimensionless := by
  rcases hq with ⟨hvalue, d, hd, hd'⟩
  rw [dimensionless, dimensionless, numberIn, numberIn]
  refine Parallel.bind _ _ _ _ _ (checkSameDimension_parallel _ _ _ _ d 0 hd
    CompoundUnit.measures_none hd' CompoundUnit.measures_none)
    (fun _ _ hcheck _ _ => Parallel.ok _ _ ⟨by rw [hvalue], ?_⟩)
  rw [hcheck]
  rfl

theorem sqrt_parallel [RootScalar α] (hq : q.Matches q') :
    Parallel UnitError.IsOverflow Matches UnitError.SameKind q.sqrt q'.sqrt := by
  rcases hq with ⟨hvalue, d, hd, hd'⟩
  exact withUnit_parallel _ _ (by rw [hvalue]) _ _
    (CompoundUnit.powReal_parallel _ _ d hd hd' _ _ RootScalar.half_acts)

end Quantity

namespace Expr

open Quantity (Matches)

omit [Scalar α] in
theorem liftUnit_eq {β : Type} (outcome : Except (UnitError α) β) :
    liftUnit outcome = outcome.mapError .unit := by
  cases outcome <;> rfl

omit [Scalar α] in
theorem liftUnit_parallel {β β' : Type} (value : β → β' → Prop) (x : Except (UnitError α) β)
    (y : Except (UnitError α) β')
    (h : Parallel UnitError.IsOverflow value UnitError.SameKind x y) :
    Parallel EvalError.IsOverflow value EvalError.SameKind (liftUnit x) (liftUnit y) := by
  rw [liftUnit_eq, liftUnit_eq]
  exact Parallel.mapError _ _ _ _ _ h (fun _ he => he) (fun e e' he => .unit e e' he)

section Operations

variable {p q p' q' : Quantity α}

theorem applyQuotient_parallel (hp : p.Matches p') (hq : q.Matches q') :
    Parallel EvalError.IsOverflow Matches EvalError.SameKind (applyQuotient p q)
      (applyQuotient p' q') := by
  have hzero : q.isZero = q'.isZero := congrArg Arithmetic.isZero hq.1
  rw [applyQuotient, applyQuotient, ← hzero]
  split
  · exact Parallel.error _ _ (.refl _)
  · exact liftUnit_parallel _ _ _ (Quantity.div_parallel hp hq)

/-- A power whose exponent is a number, or whose base carries units in both evaluations or
    in neither. -/
theorem applyPower_parallel [UnitScalar α] (hp : p.Matches p') (hq : q.Matches q')
    (h : ∀ x, q.dimensionless = .ok x →
      (∃ r, ActsAs x r) ∨ (Unscalable x ∧ p.isPlain = p'.isPlain)) :
    Parallel EvalError.IsOverflow Matches EvalError.SameKind (applyPower p q)
      (applyPower p' q') := by
  rcases hp with ⟨hvalue, d, hd, hd'⟩
  -- The exponents are one number, so the only question is which way each unit takes.
  have hpower : Parallel UnitError.IsOverflow Matches UnitError.SameKind (p.powReal q)
      (p'.powReal q') := by
    refine Parallel.bind _ _ _ _ _ (Quantity.dimensionless_parallel hq) ?_
    rintro x x' - - ⟨rfl, hx⟩
    refine Quantity.withUnit_parallel _ _ (by rw [hvalue]) _ _ ?_
    rcases h x hx with ⟨r, hr⟩ | ⟨hunscalable, hplain⟩
    · exact CompoundUnit.powReal_parallel _ _ d hd hd' x r hr
    · exact CompoundUnit.powReal_parallel_of_unscalable _ _ d hd hd' x hunscalable hplain
  refine Parallel.bind _ _ _ _ _ (liftUnit_parallel _ _ _ hpower) (fun r r' _ _ hr => ?_)
  rw [hr.1]
  split
  · exact Parallel.error _ _ (.powerNotReal p q p' q')
  · exact Parallel.ok _ _ hr

/-- The operations but powers. -/
theorem applyBinary_parallel (op : BinaryOp) (hop : op ≠ .pow) (hp : p.Matches p')
    (hq : q.Matches q') :
    Parallel EvalError.IsOverflow Matches EvalError.SameKind (applyBinary op p q)
      (applyBinary op p' q') := by
  cases op with
  | add => exact liftUnit_parallel _ _ _ (Quantity.add_parallel hp hq)
  | sub => exact liftUnit_parallel _ _ _ (Quantity.sub_parallel hp hq)
  | mul => exact liftUnit_parallel _ _ _ (Quantity.mul_parallel hp hq)
  | div => exact applyQuotient_parallel hp hq
  | pow => exact absurd rfl hop

theorem applyFunction_parallel [RootScalar α] (function : String) (hq : q.Matches q') :
    Parallel EvalError.IsOverflow Matches EvalError.SameKind (applyFunction function q)
      (applyFunction function q') := by
  have hvalue := hq.1
  rw [applyFunction, applyFunction]
  split
  · rw [hvalue]
    split
    · exact Parallel.error _ _ (.refl _)
    · exact liftUnit_parallel _ _ _ (Quantity.sqrt_parallel hq)
  · split
    · exact Parallel.ok _ _ ⟨congrArg Arithmetic.abs hvalue, hq.2⟩
    · -- A function of the same plain number.
      refine Parallel.bind _ _ _ _ _ (liftUnit_parallel _ _ _ (Quantity.dimensionless_parallel hq)) ?_
      rintro x x' - - ⟨rfl, -⟩
      cases hresult : applyScalar function x with
      | ok y => exact Parallel.ok _ _ (Quantity.matches_number y)
      | error e => exact Parallel.error _ _ (.refl e)

end Operations

section Evaluations

variable {bound bound' : Bindings α}

/-- A symbol stands for matching quantities, for the same constant, or for nothing. -/
theorem lookup_parallel (h : ∀ name, Option.Rel Matches (bound name) (bound' name))
    (name : String) :
    Parallel EvalError.IsOverflow Matches EvalError.SameKind (lookup bound name)
      (lookup bound' name) := by
  rw [lookup, lookup]
  generalize bound name = found, bound' name = found', h name = hname
  cases hname with
  | some hmatches => exact Parallel.ok _ _ hmatches
  | none =>
      cases Constant.ofName? name with
      | some constant => exact Parallel.ok _ _ (Quantity.matches_number _)
      | none => exact Parallel.error _ _ (.refl _)

/-- Evaluations go side by side if the powers in the formula do. -/
theorem evaluate_parallel [RootScalar α]
    (h : ∀ name, Option.Rel Matches (bound name) (bound' name)) (tree : Expr α)
    (hpowers : ∀ base exponent, .binary .pow base exponent ∈ tree.parts → ∀ p p' q x,
      base.evaluate bound = .ok p → base.evaluate bound' = .ok p' →
        exponent.evaluate bound = .ok q → q.dimensionless = .ok x →
          (∃ r, ActsAs x r) ∨ (Unscalable x ∧ p.isPlain = p'.isPlain)) :
    Parallel EvalError.IsOverflow Matches EvalError.SameKind (tree.evaluate bound)
      (tree.evaluate bound') := by
  induction tree with
  | number value => exact Parallel.ok _ _ (Quantity.matches_number value)
  | symbol name => exact lookup_parallel h name
  | binary op left right ihl ihr =>
      have hpart := fun part hmem base exponent hpower =>
        hpowers base exponent (parts_subset (.binary op left right) part hmem hpower)
      refine Parallel.bind _ _ _ _ _ (ihl (hpart left (left_mem_parts op left right)))
        (fun p p' hleft hleft' hp => ?_)
      refine Parallel.bind _ _ _ _ _ (ihr (hpart right (right_mem_parts op left right)))
        (fun q q' hright _ hq => ?_)
      by_cases hop : op = .pow
      · -- Only a power asks more of its operands than that they match.
        subst hop
        exact applyPower_parallel hp hq fun x hx =>
          hpowers left right (mem_parts_self _) p p' q x hleft hleft' hright hx
      · exact applyBinary_parallel op hop hp hq
  | negate operand ih =>
      have hpart := fun base exponent hpower =>
        hpowers base exponent (List.mem_cons_of_mem _ hpower)
      refine Parallel.bind _ _ _ _ _ (ih hpart) (fun q q' _ _ hq => Parallel.ok _ _ ⟨?_, hq.2⟩)
      exact congrArg (· * -Arithmetic.one) hq.1
  | call function argument ih =>
      have hpart := fun base exponent hpower =>
        hpowers base exponent (List.mem_cons_of_mem _ hpower)
      exact Parallel.bind _ _ _ _ _ (ih hpart) fun q q' _ _ hq => applyFunction_parallel function hq

/-- Two evaluations in which every symbol stands for one quantity, in two units perhaps.
    Let every exponent either multiply powers as a number does or make an integer of none,
    and let no power of a unit leave its range. Then the evaluations have alike values or
    fail in the same way, or else there is a power with an exponent of the second kind and
    a base that carries units in one of the evaluations only. -/
theorem evaluate_inOtherUnits [RootScalar α] (bound bound' : Bindings α) (hbound : bound.Derived)
    (hbound' : bound'.Derived)
    (halike : ∀ name, Option.Rel Quantity.Alike (bound name) (bound' name)) (tree : Expr α)
    (hexponents : ∀ base exponent, .binary .pow base exponent ∈ tree.parts → ∀ q x,
      exponent.evaluate bound = .ok q → q.dimensionless = .ok x →
        (∃ r, ActsAs x r) ∨ Unscalable x)
    (hrange : ∀ e, tree.evaluate bound = .error e → ¬ e.IsOverflow)
    (hrange' : ∀ e, tree.evaluate bound' = .error e → ¬ e.IsOverflow) :
    Agree Quantity.Alike EvalError.SameKind (tree.evaluate bound) (tree.evaluate bound') ∨
      ∃ base exponent p p' q x, .binary .pow base exponent ∈ tree.parts ∧
        base.evaluate bound = .ok p ∧ base.evaluate bound' = .ok p' ∧ p.isPlain ≠ p'.isPlain ∧
        exponent.evaluate bound = .ok q ∧ q.dimensionless = .ok x ∧ Unscalable x := by
  by_cases hdefect : ∃ base exponent p p' q x, .binary .pow base exponent ∈ tree.parts ∧
      base.evaluate bound = .ok p ∧ base.evaluate bound' = .ok p' ∧ p.isPlain ≠ p'.isPlain ∧
      exponent.evaluate bound = .ok q ∧ q.dimensionless = .ok x ∧ Unscalable x
  · exact Or.inr hdefect
  · left
    -- Units that were read or derived are in order, so alike quantities match.
    have hmatches : ∀ name, Option.Rel Matches (bound name) (bound' name) := by
      intro name
      have hname := halike name
      cases hp : bound name with
      | none =>
          cases hq : bound' name with
          | none => exact .none
          | some q => rw [hp, hq] at hname; cases hname
      | some p =>
          cases hq : bound' name with
          | none => rw [hp, hq] at hname; cases hname
          | some q =>
              rw [hp, hq] at hname
              cases hname with
              | some hsame =>
                  exact .some (hsame.matches_of_derived p q (hbound name p hp) (hbound' name q hq))
    -- A power that has a base with units in one evaluation only would be the defect.
    have hpowers : ∀ base exponent, .binary .pow base exponent ∈ tree.parts → ∀ p p' q x,
        base.evaluate bound = .ok p → base.evaluate bound' = .ok p' →
          exponent.evaluate bound = .ok q → q.dimensionless = .ok x →
            (∃ r, ActsAs x r) ∨ (Unscalable x ∧ p.isPlain = p'.isPlain) := by
      intro base exponent hpart p p' q x hp hp' hq hx
      rcases hexponents base exponent hpart q x hq hx with hnumber | hunscalable
      · exact Or.inl hnumber
      · refine Or.inr ⟨hunscalable, Decidable.byContradiction fun hplain => hdefect ?_⟩
        exact ⟨base, exponent, p, p', q, x, hpart, hp, hp', hplain, hq, hx, hunscalable⟩
    have hparallel := evaluate_parallel hmatches tree hpowers
    exact (hparallel.agree _ _ hrange hrange').imp _ _ _ _ _ Quantity.Matches.alike

end Evaluations

section Example

/-- The exponent of `1e999`, which is no number. -/
def infinite : Float := Arithmetic.ofDecimal ⟨1, 999⟩

theorem unscalable_infinite : Unscalable (CompoundUnit.none.ofBase infinite) :=
  Double.unscalable_of_infinity _ .positive rfl

/-- The formula `x^1e999`. -/
def infinitePower : Expr Float := .binary .pow (.symbol "x") (.number infinite)

def radian : CompoundUnit Float := ⟨[⟨"rad", {}, Arithmetic.one, 1⟩]⟩

/-- One half, in a given unit of plain numbers. -/
def half (unit : CompoundUnit Float) : Bindings Float := Bindings.empty.bind "x" ⟨0.5, unit⟩

theorem half_derived (unit : CompoundUnit Float) (h : unit.Derived) : (half unit).Derived := by
  intro name q hq
  rw [half, Bindings.bind] at hq
  split at hq
  · rw [← Option.some.inj hq]
    exact h
  · cases hq

/-- Half of a unit with factors has no such power. -/
theorem evaluate_infinitePower_unit (unit : CompoundUnit Float) (h : unit.Derived)
    (hfactors : unit.isNone = false) :
    infinitePower.evaluate (half unit) =
      .error (.unit (.fractionalPower unit (CompoundUnit.none.ofBase infinite))) := by
  rcases h.wellFormed.measures with ⟨d, hd⟩
  have hpower := CompoundUnit.powReal_unscalable unit d hd _ unscalable_infinite
  have hdimensionless : (Quantity.number infinite).dimensionless =
      .ok (CompoundUnit.none.ofBase infinite) := rfl
  rw [hfactors, if_neg Bool.false_ne_true] at hpower
  change applyPower ⟨0.5, unit⟩ (.number infinite) = _
  rw [applyPower, Quantity.powReal, hdimensionless]
  simp only [bind, Except.bind, hpower, liftUnit]

/-- For the plain number it is the power function that decides. -/
theorem evaluate_infinitePower_plain (e : EvalError Float)
    (h : infinitePower.evaluate (half .none) = .error e) :
    ∃ base exponent, e = .invalidArgument (.powerNotReal base exponent) := by
  change (if Arithmetic.isUndefined (Scalar.pow 0.5 (CompoundUnit.none.ofBase infinite)) then _
    else _) = _ at h
  split at h
  · exact ⟨_, _, (Except.error.inj h).symm⟩
  · cases h

/-- Half a radian to the power of infinity is the defect: it fails because of its unit, and
    the plain number one half does not. -/
theorem evaluate_inOtherUnits_radian :
    ¬ Agree Quantity.Alike EvalError.SameKind (infinitePower.evaluate (half radian))
        (infinitePower.evaluate (half .none)) ∧
      ∃ base exponent p p' q x, .binary .pow base exponent ∈ infinitePower.parts ∧
        base.evaluate (half radian) = .ok p ∧ base.evaluate (half .none) = .ok p' ∧
        p.isPlain ≠ p'.isPlain ∧ exponent.evaluate (half radian) = .ok q ∧
        q.dimensionless = .ok x ∧ Unscalable x := by
  have hradian : radian.Derived :=
    .read "rad" _ (Outcome.eq_ok_of_toOption _ _ (by decide))
  have hradians := evaluate_infinitePower_unit radian hradian rfl
  have hdiffer : ¬ Agree Quantity.Alike EvalError.SameKind (infinitePower.evaluate (half radian))
      (infinitePower.evaluate (half .none)) := by
    rw [hradians]
    cases hplain : infinitePower.evaluate (half .none) with
    | ok q => exact fun h => h
    | error e =>
        rcases evaluate_infinitePower_plain e hplain with ⟨base, exponent, rfl⟩
        intro h
        cases h
  refine ⟨hdiffer, (evaluate_inOtherUnits (half radian) (half .none) (half_derived _ hradian)
    (half_derived _ CompoundUnit.none_derived) ?alike infinitePower ?exponents ?range
    ?range').resolve_left hdiffer⟩
  case alike =>
    intro name
    rw [half, half, Bindings.bind, Bindings.bind]
    split
    · exact .some ⟨rfl, rfl⟩
    · exact .none
  case exponents =>
    intro base exponent hpart q x hq hx
    simp only [infinitePower, parts, List.mem_cons, List.not_mem_nil, or_false,
      List.mem_append, reduceCtorEq, Expr.binary.injEq] at hpart
    rcases hpart with ⟨-, rfl, rfl⟩
    cases hq
    cases hx
    exact Or.inr unscalable_infinite
  case range =>
    intro e he
    rw [hradians, Except.error.injEq] at he
    rintro h
    rw [← he] at h
    rcases h with ⟨overflow, h⟩
    cases h
  case range' =>
    intro e he
    rcases evaluate_infinitePower_plain e he with ⟨base, exponent, rfl⟩
    exact fun h => h

end Example

end Expr

end Metrology
