import Metrology.Proofs.Expr.UnitChoice
import Metrology.Proofs.Propagation.Units

/-!
# The representation of units

Every unit that can come about is in order. Reading and the operations go through the
merging step, which keeps a product tidy, and they end with a check of the dimension. The
coherent SI unit of a dimension is built without either, and it is in order because the
exponents of a dimension fit into eight bits and the base symbols stand in the catalog
with the scale one.

So a quantity in such a unit always has a dimension. Conversions, sums and differences
compare dimensions before they do anything else, and comparing is all that can fail:
either the two dimensions are the same and there is a result, or the units do not match.

## Theorems

* `CompoundUnit.fits_of_dimension`: A dimension that is found is in range.
* `Quantity.numberIn_of_measures`, `Quantity.add_of_measures`,
  `Quantity.sub_of_measures`: What comparing dimensions leads to.
* `CompoundUnit.derived_representation`: Derived units are in order, and comparing them
  never leaves the range.
-/

namespace Metrology

variable {α : Type}

namespace CompoundUnit

/-- A dimension that passes the checks on the way to it is in range. -/
theorem fits_of_dimension (unit : CompoundUnit α) (d : Dimension) (h : unit.dimension = .ok d) :
    d.Fits := by
  rw [dimension_eq_ok] at h
  exact Outcome.foldlM_keeps Dimension.Fits multiplyDimension unit.factors
    (fun product factor next _ _ hstep => ((multiplyDimension_eq_ok product next factor).mp hstep).2.1)
    Dimension.one d Dimension.fits_one h

end CompoundUnit

namespace Quantity

variable [Scalar α]

/-- A result behind a comparison of dimensions. -/
theorem compared_of_measures {β : Type} (left right : CompoundUnit α) (d e : Dimension)
    (hleft : left.Measures d) (hright : right.Measures e) (result : β) :
    (do checkSameDimension left right; return result : Except (UnitError α) β) =
      if d = e then .ok result else .error (.dimensionMismatch left right) := by
  rw [checkSameDimension_of_measures left right d e hleft hright]
  by_cases hsame : d = e
  · rw [if_pos hsame, if_pos hsame]
    rfl
  · rw [if_neg hsame, if_neg hsame]
    rfl

theorem numberIn_of_measures (q : Quantity α) (target : CompoundUnit α) (d e : Dimension)
    (hq : q.unit.Measures d) (htarget : target.Measures e) :
    q.numberIn target =
      if d = e then .ok (target.ofBase q.value) else .error (.dimensionMismatch q.unit target) :=
  compared_of_measures q.unit target d e hq htarget _

theorem add_of_measures (p q : Quantity α) (d e : Dimension) (hp : p.unit.Measures d)
    (hq : q.unit.Measures e) :
    p.add q =
      if d = e then .ok ⟨p.value + q.value, p.unit⟩
      else .error (.dimensionMismatch p.unit q.unit) :=
  compared_of_measures p.unit q.unit d e hp hq _

theorem sub_of_measures (p q : Quantity α) (d e : Dimension) (hp : p.unit.Measures d)
    (hq : q.unit.Measures e) :
    p.sub q =
      if d = e then .ok ⟨p.value - q.value, p.unit⟩
      else .error (.dimensionMismatch p.unit q.unit) :=
  compared_of_measures p.unit q.unit d e hp hq _

end Quantity

namespace CompoundUnit

variable [Scalar α]

/-- The unit of plain numbers is derived, and with a unit the coherent one of its
    dimension. Every derived unit has each symbol once, under its meaning in the catalog
    and with a power that is not zero, and it has a dimension. So have quantities in such
    units, and converting, adding and subtracting them either succeeds or fails because
    the two dimensions differ: the range of powers is never left. -/
theorem derived_representation [UnitScalar α] :
    (none : CompoundUnit α).Derived ∧
    (∀ unit : CompoundUnit α, unit.Derived →
      (unit.factors.map (·.symbol)).Nodup ∧
      (∀ factor ∈ unit.factors, factor.power ≠ 0 ∧
        Catalog.lookup factor.symbol = some (factor.dimension, factor.scale)) ∧
      ∃ d, unit.dimension = .ok d ∧ (si d : CompoundUnit α).Derived) ∧
    ∀ p q : Quantity α, p.unit.Derived → q.unit.Derived →
      ∃ d e, p.dimension = .ok d ∧ q.dimension = .ok e ∧
        p.numberIn q.unit = (if d = e then .ok (q.unit.ofBase p.value)
          else .error (.dimensionMismatch p.unit q.unit)) ∧
        p.add q = (if d = e then .ok ⟨p.value + q.value, p.unit⟩
          else .error (.dimensionMismatch p.unit q.unit)) ∧
        p.sub q = (if d = e then .ok ⟨p.value - q.value, p.unit⟩
          else .error (.dimensionMismatch p.unit q.unit)) := by
  refine ⟨none_derived, fun unit hunit => ?_, fun p q hp hq => ?_⟩
  · have htidy := hunit.wellFormed.tidy
    rcases hunit.wellFormed.measurable with ⟨d, hd⟩
    exact ⟨htidy.distinct, fun factor hmem => ⟨htidy.nonzero factor hmem, htidy.known factor hmem⟩,
      d, hd, .si d (unit.fits_of_dimension d hd)⟩
  · rcases hp.wellFormed.measures with ⟨d, hd⟩
    rcases hq.wellFormed.measures with ⟨e, he⟩
    exact ⟨d, e, hd.dimension_eq, he.dimension_eq, Quantity.numberIn_of_measures p q.unit d e hd he,
      Quantity.add_of_measures p q d e hd he, Quantity.sub_of_measures p q d e hd he⟩

section Roots

/-- A kilogram metre per second, in coherent SI units. -/
def momentum : CompoundUnit Float :=
  ⟨[⟨"kg", { mass := 1 }, Arithmetic.one, 1⟩, ⟨"m", { length := 1 }, Arithmetic.one, 1⟩,
    ⟨"s", { time := 1 }, Arithmetic.one, -1⟩]⟩

/-- The root of `g kg cm m / s^2` has fractional powers of its symbols, so it is the
    coherent unit of its dimension. That has the kilogram with the scale of the catalog,
    and no plain number can be added to it. -/
theorem derived_representation_root :
    ∃ squared : CompoundUnit Float, read "g kg cm m / s^2" = .ok squared ∧
      squared.powReal (Arithmetic.ofDecimal ⟨5, -1⟩) = .ok momentum ∧
      (momentum.factors.map (·.symbol)).Nodup ∧
      (∀ factor ∈ momentum.factors, factor.power ≠ 0 ∧
        Catalog.lookup factor.symbol = some (factor.dimension, factor.scale)) ∧
      (⟨2, momentum⟩ : Quantity Float).add (.number 1) =
        .error (.dimensionMismatch momentum none) := by
  have hread : ((read "g kg cm m / s^2" : Except _ (CompoundUnit Float)).bind fun squared =>
      squared.powReal (Arithmetic.ofDecimal ⟨5, -1⟩)) = .ok momentum :=
    Outcome.eq_ok_of_toOption _ _ (by decide +kernel)
  rcases (Outcome.bind_eq_ok _ _ _).mp hread with ⟨squared, hsquared, hroot⟩
  have hderived : momentum.Derived := .powReal squared momentum _ (.read _ squared hsquared) hroot
  have hinvariant := derived_representation (α := Float)
  rcases hinvariant.2.1 momentum hderived with ⟨hdistinct, hfactors, -⟩
  rcases hinvariant.2.2 ⟨2, momentum⟩ (.number 1) hderived hinvariant.1 with
    ⟨d, e, hd, he, -, hadd, -⟩
  refine ⟨squared, hsquared, hroot, hdistinct, hfactors, ?_⟩
  rw [hadd, if_neg]
  · rfl
  · rintro rfl
    rw [← hd] at he
    have hdiffer : momentum.dimension.toOption ≠
        (none : CompoundUnit Float).dimension.toOption := by decide
    exact hdiffer (congrArg Except.toOption he.symm)

end Roots

end CompoundUnit

end Metrology
