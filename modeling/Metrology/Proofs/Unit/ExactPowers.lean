import Mathlib.Data.Real.Basic
import Metrology.Proofs.Unit.Measures

/-!
# Powers of units that measure the same

Units of one dimension may be made of different factors, and a real power goes through
the factors first: if every power of a factor becomes an integer, they keep their
symbols. Only otherwise the dimension is raised as a whole. A power of one unit may take
the first way and that of another unit the second. If the exponent multiplies powers as
a number does, both ways end in the same dimension, or neither unit has the power: where
the powers of all factors become integers, those of the dimension do.

An exponent that makes an integer of no power, not even of zero, is different. It fails
for every unit with factors, and for none without, because there nothing is raised.

## Main definitions

* `CompoundUnit.ActsAs`: A scalar that multiplies powers as a number does.
* `CompoundUnit.Unscalable`: A scalar that makes an integer of no power.
* `RootScalar`: Scalars in which one half is a half.
* `UnitError.SameKind`: Failures that are equal up to the units that they name.

## Theorems

* `CompoundUnit.Measures.scaledDimension?_of_powReal`: A power has the dimension of the
  second way.
* `CompoundUnit.powReal_eq_error`: Why there is no power.
* `CompoundUnit.powReal_parallel`, `CompoundUnit.powReal_parallel_of_unscalable`: Powers of
  units that measure the same.
* `CompoundUnit.powReal_unscalable`: Powers with an exponent that is no number.
* `Double.unscalable_of_infinity`: Infinite exponents are no numbers.
-/

namespace Metrology

open Outcome (Parallel)

namespace Dimension

/-- The exponents of a dimension, as functions of it. -/
def components : List (Dimension → ℤ) :=
  [mass, length, time, current, temperature, amount, luminosity]

theorem exponents_eq (d : Dimension) : d.exponents = components.map (· d) := rfl

/-- Exponents are those of a sum and of a multiple. -/
theorem component_add_smul (c : Dimension → ℤ) (hc : c ∈ components) (n : ℤ) (d e : Dimension) :
    c (n • d + e) = n * c d + c e := by
  revert c
  simp only [components, List.forall_mem_cons, List.not_mem_nil, false_implies, implies_true,
    and_true]
  refine ⟨?_, ?_, ?_, ?_, ?_, ?_, ?_⟩ <;> exact congrArg (· + _) (Int.mul_comm _ _)

theorem component_zero : ∀ c ∈ components, c 0 = 0 := by decide

theorem component_mem_exponents (c : Dimension → ℤ) (hc : c ∈ components) (d : Dimension) :
    c d ∈ d.exponents := by
  rw [exponents_eq]
  exact List.mem_map_of_mem hc

/-- A dimension that is another one times a number. -/
def Scales (r : ℝ) (d e : Dimension) : Prop := ∀ c ∈ components, (c d : ℝ) * r = c e

end Dimension

/-- Failures that are equal up to the units that they name. -/
inductive UnitError.SameKind {α : Type} : UnitError α → UnitError α → Prop
  | refl (e : UnitError α) : SameKind e e
  | mismatch (left right left' right' : CompoundUnit α) :
      SameKind (.dimensionMismatch left right) (.dimensionMismatch left' right')
  | fractional (unit unit' : CompoundUnit α) (exponent : α) :
      SameKind (.fractionalPower unit exponent) (.fractionalPower unit' exponent)

namespace CompoundUnit

variable {α : Type} [Scalar α]

/-- A scalar that multiplies powers as a number does, as far as the products are small:
    those that are integers are found, and no others. -/
def ActsAs (x : α) (r : ℝ) : Prop :=
  ∀ power : ℤ, -128 ≤ power → power ≤ 127 → ∀ n : ℤ, -255 ≤ n → n ≤ 255 →
    (scaledPower? power x = some n ↔ (power : ℝ) * r = n)

/-- A scalar that makes an integer of no power. -/
def Unscalable (x : α) : Prop :=
  ∀ power : ℤ, -128 ≤ power → power ≤ 127 → scaledPower? power x = Option.none

end CompoundUnit

/-- What roots ask of scalars: one half is a half. -/
class RootScalar (α : Type) [Scalar α] : Prop extends UnitScalar α where
  half_acts : CompoundUnit.ActsAs (Arithmetic.ofDecimal ⟨5, -1⟩ : α) 2⁻¹

open Float.Model in
/-- No product with an infinity is an integer. -/
theorem Double.unscalable_of_infinity (x : Float) (sign : UnpackedFloat.Sign)
    (hx : x.toModel.unpack = .infinity sign) : CompoundUnit.Unscalable x := by
  intro power _ _
  have hmul : Arithmetic.ofInt power * x =
      ⟨pack (.mul .binary64 (Arithmetic.ofInt power : Float).toModel.unpack x.toModel.unpack)⟩ := rfl
  have hinfinite : ∀ s, (⟨pack (.infinity s)⟩ : Float).isFinite = false := by
    rintro (_ | _) <;> rfl
  have hundefined : (⟨pack .notANumber⟩ : Float).isFinite = false := rfl
  have hfinite : (Arithmetic.ofInt power * x).isFinite = false := by
    rw [hmul, hx]
    cases (Arithmetic.ofInt power : Float).toModel.unpack with
    | notANumber => exact hundefined
    | infinity s => exact hinfinite _
    | zero s => exact hundefined
    | finite s m e hm => exact hinfinite _
  change Double.integral? (Arithmetic.ofInt power * x) = none
  rw [Double.integral?, hfinite]
  rfl

/-- One half is a half on doubles. -/
instance : RootScalar Float where
  half_acts power hlow hhigh n _ _ := by
    have hproduct : (power : ℝ) * 2⁻¹ = n ↔ power = n * 2 := by
      rw [mul_inv_eq_iff_eq_mul₀ two_ne_zero]
      exact_mod_cast Iff.rfl
    rw [hproduct]
    constructor
    · exact FoldingScalar.scaledPower?_half power n hlow hhigh
    · rintro rfl
      by_cases hleast : n = -64
      · rw [hleast]
        exact Double.scaledPower?_small.1
      · exact UnitScalar.half_double n (by omega) (by omega)

namespace CompoundUnit

variable {α : Type} [Scalar α]

section Scaling

variable (scaled : ℤ → Option ℤ) (r : ℝ)

omit [Scalar α] in
/-- Factors whose powers are multiplied add up to a multiple. -/
theorem scales_of_scaledSum? (factors : List (UnitFactor α))
    (h : ∀ factor ∈ factors, ∀ n, scaled factor.power = some n → (factor.power : ℝ) * r = n) :
    ∀ e, scaledSum? scaled factors = some e → (exactDimension factors).Scales r e := by
  induction factors with
  | nil =>
      intro e he c hc
      rw [← Option.some.inj he]
      have hzero : c (exactDimension ([] : List (UnitFactor α))) = 0 := Dimension.component_zero c hc
      rw [hzero, Dimension.component_zero c hc, Int.cast_zero, zero_mul]
  | cons factor rest ih =>
      intro e he c hc
      simp only [scaledSum?, Option.bind_eq_bind, Option.bind_eq_some_iff] at he
      rcases he with ⟨n, hn, tail, htail, he⟩
      have hfactor := h factor List.mem_cons_self n hn
      have hrest := ih (fun f hf => h f (List.mem_cons_of_mem _ hf)) tail htail c hc
      rw [← Option.some.inj he, exactDimension_cons, Dimension.component_add_smul c hc,
        Dimension.component_add_smul c hc]
      push_cast
      rw [← hfactor, ← hrest]
      ring

/-- A dimension is scaled to the one whose exponents are the scaled ones. -/
theorem scaledDimension?_eq_some_iff (d e : Dimension) :
    scaledDimension? scaled d = some e ↔
      ∀ c ∈ Dimension.components, scaled (c d) = some (c e) := by
  have hall : ∀ cs : List (Dimension → ℤ), (cs.map (· d)).mapM scaled = some (cs.map (· e)) ↔
      ∀ c ∈ cs, scaled (c d) = some (c e) := by
    intro cs
    induction cs with
    | nil => exact ⟨fun _ c hc => absurd hc List.not_mem_nil, fun _ => rfl⟩
    | cons c rest ih =>
        rw [List.forall_mem_cons, ← ih, List.map_cons, List.map_cons, List.mapM_cons]
        cases scaled (c d) <;> cases (rest.map (· d)).mapM scaled <;> simp
  rw [← hall, ← Dimension.exponents_eq, ← Dimension.exponents_eq, scaledDimension?,
    Option.bind_eq_some_iff]
  constructor
  · rintro ⟨exponents, hexponents, he⟩
    rw [hexponents, exponents_of_dimensionOf? exponents e he]
  · exact fun h => ⟨e.exponents, h, rfl⟩

end Scaling

/-- Where every factor is raised, its power becomes a small integer. -/
theorem powFactors?_small (exponent : α) (factors : List (UnitFactor α))
    (hknown : ∀ factor ∈ factors, Known factor) :
    ∀ product result : CompoundUnit α, Tidy product.factors →
      powFactors? exponent product factors = .ok (some result) →
        ∀ factor ∈ factors, ∀ n, scaledPower? factor.power exponent = some n →
          -255 ≤ n ∧ n ≤ 255 := by
  induction factors with
  | nil => exact fun _ _ _ _ factor hmem => absurd hmem List.not_mem_nil
  | cons factor rest ih =>
      intro product result hproduct h
      rw [powFactors?] at h
      cases hpower : scaledPower? factor.power exponent with
      | none => simp only [hpower, Except.ok.injEq, reduceCtorEq] at h
      | some power =>
          simp only [hpower] at h
          rw [Outcome.bind_eq_ok] at h
          rcases h with ⟨next, hpush, hrest⟩
          have hnext := push_tidy product next _ hproduct
            (show Known { factor with power } from hknown factor List.mem_cons_self) hpush
          refine List.forall_mem_cons.mpr ⟨fun n hn => ?_, ih (fun f hf => hknown f
            (List.mem_cons_of_mem _ hf)) next result hnext hrest⟩
          rw [hpower, Option.some.injEq] at hn
          exact hn ▸ push_small product next _ hproduct hpush

/-- A power has the dimension that is raised as a whole, whichever way it is found. -/
theorem Measures.scaledDimension?_of_powReal [UnitScalar α] (unit : CompoundUnit α) (d : Dimension)
    (hunit : unit.Measures d) (exponent : α) (r : ℝ) (hexponent : ActsAs exponent r)
    (result : CompoundUnit α) (h : unit.powReal exponent = .ok result) :
    ∃ e, scaledDimension? (scaledPower? · exponent) d = some e ∧ result.Measures e := by
  rcases (hunit.powReal unit d exponent).value_of_ok _ _ h with ⟨e, he, hresult⟩
  refine ⟨e, ?_, hresult⟩
  rw [realPower?] at he
  cases hsum : scaledSum? (scaledPower? · exponent) unit.factors with
  | none =>
      rw [hsum] at he
      exact he
  | some sum =>
      rw [hsum] at he
      have hsame : sum = e := Option.some.inj he
      subst hsame
      -- The factors were raised, so their powers became small integers.
      have hraised : ∃ product, powFactors? exponent none unit.factors = .ok (some product) := by
        rw [CompoundUnit.powReal, Outcome.bind_eq_ok] at h
        rcases h with ⟨product?, hproduct, -⟩
        rcases (powFactors?_exact exponent unit.factors hunit.tidy.known none
          tidy_nil).value_of_ok _ _ hproduct with ⟨-, hnone⟩ | ⟨product, -, rfl, -⟩
        · rw [hsum] at hnone
          cases hnone
        · exact ⟨product, hproduct⟩
      rcases hraised with ⟨product, hproduct⟩
      have hscales := scales_of_scaledSum? (scaledPower? · exponent) r unit.factors
        (fun factor hmem n hn => ?_) sum hsum
      · rw [hunit.exact] at hscales
        -- So the exponents of the dimension become those of the power, which are small.
        refine (scaledDimension?_eq_some_iff _ d sum).mpr (fun c hc => ?_)
        have hpower := hunit.bounded _ _ (c d) (unit.exponent_mem_allPowers d _
          (Dimension.component_mem_exponents c hc d))
        have hvalue := hresult.bounded _ _ (c sum) (result.exponent_mem_allPowers sum _
          (Dimension.component_mem_exponents c hc sum))
        exact (hexponent (c d) hpower.1 hpower.2 (c sum) (by omega) (by omega)).mpr (hscales c hc)
      · have hpower := hunit.tidy.bounded factor hmem
        have hsmall := powFactors?_small exponent unit.factors hunit.tidy.known none product tidy_nil
          hproduct factor hmem n hn
        exact (hexponent factor.power hpower.1 hpower.2 n hsmall.1 hsmall.2).mp hn

/-- There is no power because powers leave the range, or because the dimension cannot be
    raised. -/
theorem powReal_eq_error (unit : CompoundUnit α) (d : Dimension) (hunit : unit.Measures d)
    (exponent : α) (e : UnitError α) (h : unit.powReal exponent = .error e) :
    e.IsOverflow ∨ (e = .fractionalPower unit exponent ∧
      scaledDimension? (scaledPower? · exponent) d = Option.none) := by
  rw [CompoundUnit.powReal, Outcome.bind_eq_error] at h
  rcases h with h | ⟨product?, -, h⟩
  · exact Or.inl ((powFactors?_exact exponent unit.factors hunit.tidy.known none
      tidy_nil).failure_of_error _ e h)
  · cases product? with
    | some product => exact Or.inl (check_eq_error product e h)
    | none =>
        rw [hunit.dimension_eq] at h
        simp only [Outcome.bind_eq_error, Except.ok.injEq, reduceCtorEq, false_or] at h
        rcases h with ⟨_, rfl, hscaled | ⟨scaled?, hscaled, h⟩⟩
        · exact Or.inl ⟨_, (scaledExponents?_eq _ exponent d.exponents).failure_of_error _ e hscaled⟩
        · have hpowers := (scaledExponents?_eq _ exponent d.exponents).value_of_ok _ _ hscaled
          refine Or.inr ?_
          rw [scaledDimension?, hpowers]
          cases hbind : scaled?.bind dimensionOf? with
          | none =>
              simp only [hbind, Except.error.injEq] at h
              exact ⟨h.symm, rfl⟩
          | some found =>
              rw [hbind] at h
              cases h

/-- Powers of units that measure the same go side by side, if the exponent is a number. -/
theorem powReal_parallel [UnitScalar α] (unit unit' : CompoundUnit α) (d : Dimension)
    (hunit : unit.Measures d) (hunit' : unit'.Measures d) (exponent : α) (r : ℝ)
    (hexponent : ActsAs exponent r) :
    Parallel UnitError.IsOverflow (fun power power' => ∃ e, power.Measures e ∧ power'.Measures e)
      UnitError.SameKind (unit.powReal exponent) (unit'.powReal exponent) := by
  have hvalue := fun (u : CompoundUnit α) (hu : u.Measures d) =>
    hu.scaledDimension?_of_powReal u d exponent r hexponent
  have hfailure := fun (u : CompoundUnit α) (hu : u.Measures d) => u.powReal_eq_error d hu exponent
  -- Whether there is a power, and of which dimension, does not depend on the unit.
  cases hpower : unit.powReal exponent with
  | ok power =>
      rcases hvalue unit hunit power hpower with ⟨e, he, hmeasures⟩
      cases hpower' : unit'.powReal exponent with
      | ok power' =>
          rcases hvalue unit' hunit' power' hpower' with ⟨e', he', hmeasures'⟩
          rw [he, Option.some.injEq] at he'
          exact Parallel.ok _ _ ⟨e, hmeasures, he' ▸ hmeasures'⟩
      | error err =>
          rcases hfailure unit' hunit' err hpower' with hoverflow | ⟨-, hnone⟩
          · exact Or.inr (Or.inl ⟨err, rfl, hoverflow⟩)
          · rw [he] at hnone
            cases hnone
  | error err =>
      rcases hfailure unit hunit err hpower with hoverflow | ⟨rfl, hnone⟩
      · exact Or.inl ⟨err, rfl, hoverflow⟩
      · cases hpower' : unit'.powReal exponent with
        | ok power' =>
            rcases hvalue unit' hunit' power' hpower' with ⟨e', he', -⟩
            rw [hnone] at he'
            cases he'
        | error err' =>
            rcases hfailure unit' hunit' err' hpower' with hoverflow | ⟨rfl, -⟩
            · exact Or.inr (Or.inl ⟨err', rfl, hoverflow⟩)
            · exact Parallel.error _ _ (.fractional unit unit' exponent)

/-- With an exponent that makes an integer of no power, only the unit of plain numbers has
    a power. -/
theorem powReal_unscalable (unit : CompoundUnit α) (d : Dimension) (hunit : unit.Measures d)
    (exponent : α) (hexponent : Unscalable exponent) :
    unit.powReal exponent =
      if unit.isNone then .ok none else .error (.fractionalPower unit exponent) := by
  rcases unit with ⟨_ | ⟨factor, rest⟩⟩
  · rfl
  · have hfactor := hunit.tidy.bounded factor List.mem_cons_self
    have hmass := hunit.bounded _ _ d.mass (exponent_mem_allPowers _ d _ List.mem_cons_self)
    -- Neither the first factor nor the first exponent of the dimension can be raised.
    have hraised : powFactors? exponent none (factor :: rest) = .ok Option.none := by
      rw [powFactors?, hexponent factor.power hfactor.1 hfactor.2]
    have hscaled : ∀ overflow, scaledExponents? overflow exponent d.exponents = .ok Option.none := by
      intro overflow
      rw [Dimension.exponents, scaledExponents?, hexponent d.mass hmass.1 hmass.2]
    rw [powReal, hraised, hunit.dimension_eq]
    simp only [bind, Except.bind, hscaled]
    rfl

/-- With such an exponent, powers of units go side by side that are both the unit of plain
    numbers, or both not. -/
theorem powReal_parallel_of_unscalable (unit unit' : CompoundUnit α) (d : Dimension)
    (hunit : unit.Measures d) (hunit' : unit'.Measures d) (exponent : α)
    (hexponent : Unscalable exponent) (hsame : unit.isNone = unit'.isNone) :
    Parallel UnitError.IsOverflow (fun power power' => ∃ e, power.Measures e ∧ power'.Measures e)
      UnitError.SameKind (unit.powReal exponent) (unit'.powReal exponent) := by
  rw [powReal_unscalable unit d hunit exponent hexponent,
    powReal_unscalable unit' d hunit' exponent hexponent, hsame]
  split
  · exact Parallel.ok _ _ ⟨0, measures_none, measures_none⟩
  · exact Parallel.error _ _ (.fractional unit unit' exponent)

end CompoundUnit

end Metrology
