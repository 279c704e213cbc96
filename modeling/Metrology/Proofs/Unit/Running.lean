import Mathlib.Data.List.Infix
import Metrology.Proofs.Unit.Measures

/-!
# Running dimensions

When a product of factors has a dimension. The dimension is made by multiplying what the
factors contribute one after the other, and every intermediate dimension has to fit into
eight bits, not only the one at the end. So `m^100 km^100 cm^-100` has no dimension although
its factors add up to a hundred lengths, and `m^100 cm^-100 km^100` has one.

The condition is therefore one about all starts of the list of factors. What it says about
the order is what separates a product from the same product taken the other way round.

## Main definitions

* `CompoundUnit.RunsInRange`: Every intermediate dimension fits into eight bits.

## Theorems

* `CompoundUnit.dimension_isOk_iff`: When a unit has a dimension.
* `CompoundUnit.check_eq_ok_iff_runs`: Which units the check passes on.
-/

namespace Metrology.CompoundUnit

variable {α : Type}

/-- Every factor, and every start of the list of factors, has a dimension that fits into
    eight bits. -/
structure RunsInRange (factors : List (UnitFactor α)) : Prop where
  each : ∀ factor ∈ factors, factor.exponents.Fits
  along : ∀ start, start <+: factors → (exactDimension start).Fits

/-- Multiplying what factors contribute to a dimension in range succeeds if every factor and
    every intermediate dimension is in range. -/
theorem foldlM_multiplyDimension_isOk (factors : List (UnitFactor α)) :
    ∀ product : Dimension, product.Fits →
      ((∃ d, factors.foldlM multiplyDimension product = .ok d) ↔
        (∀ factor ∈ factors, factor.exponents.Fits) ∧
          ∀ start, start <+: factors → (product + exactDimension start).Fits) := by
  induction factors with
  | nil =>
      intro product hproduct
      refine ⟨fun _ => ⟨fun _ h => absurd h List.not_mem_nil, fun start hstart => ?_⟩,
        fun _ => ⟨product, rfl⟩⟩
      rw [List.prefix_nil.mp hstart]
      exact (add_zero product).symm ▸ hproduct
  | cons factor rest ih =>
      intro product hproduct
      -- A start behind the first factor adds up to the same, with that factor multiplied before.
      have hassoc : ∀ start : List (UnitFactor α),
          product + exactDimension (factor :: start) =
            product + factor.exponents + exactDimension start :=
        fun start => (add_assoc _ _ _).symm
      rw [List.foldlM_cons, List.forall_mem_cons]
      constructor
      · rintro ⟨d, h⟩
        rcases (Outcome.bind_eq_ok _ _ _).mp h with ⟨next, hnext, hrest⟩
        rcases (multiplyDimension_eq_ok product next factor).mp hnext with ⟨heach, hfits, rfl⟩
        rcases (ih _ hfits).mp ⟨d, hrest⟩ with ⟨hothers, hstarts⟩
        refine ⟨⟨heach, hothers⟩, fun start hstart => ?_⟩
        rcases List.prefix_cons_iff.mp hstart with rfl | ⟨tail, rfl, htail⟩
        · exact (add_zero product).symm ▸ hproduct
        · exact (hassoc tail).symm ▸ hstarts tail htail
      · rintro ⟨⟨heach, hothers⟩, hstarts⟩
        have hfits : (product + factor.exponents).Fits := by
          have hsum : product + exactDimension [factor] = product + factor.exponents :=
            congrArg (product + ·) (add_zero factor.exponents)
          exact hsum ▸ hstarts [factor] ⟨rest, rfl⟩
        have hrest := (ih _ hfits).mpr ⟨hothers, fun start hstart =>
          hassoc start ▸ hstarts (factor :: start) (List.cons_prefix_cons.mpr ⟨rfl, hstart⟩)⟩
        rcases hrest with ⟨d, hd⟩
        exact ⟨d, (Outcome.bind_eq_ok _ _ _).mpr ⟨_, (multiplyDimension_eq_ok _ _ _).mpr
          ⟨heach, hfits, rfl⟩, hd⟩⟩

/-- A unit has a dimension if all intermediate ones are in range. -/
theorem dimension_isOk_iff (unit : CompoundUnit α) :
    (∃ d, unit.dimension = .ok d) ↔ RunsInRange unit.factors := by
  simp only [dimension_eq_ok]
  rw [foldlM_multiplyDimension_isOk unit.factors Dimension.one Dimension.fits_one]
  have hstart : ∀ start : List (UnitFactor α),
      Dimension.one + exactDimension start = exactDimension start := fun start => zero_add _
  simp only [hstart]
  exact ⟨fun h => ⟨h.1, h.2⟩, fun h => ⟨h.each, h.along⟩⟩

/-- The check passes on the units whose intermediate dimensions are in range. -/
theorem check_eq_ok_iff_runs (unit result : CompoundUnit α) :
    unit.check = .ok result ↔ result = unit ∧ RunsInRange unit.factors := by
  rw [check_eq_ok, dimension_isOk_iff]

end Metrology.CompoundUnit
