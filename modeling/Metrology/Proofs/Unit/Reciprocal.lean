import Metrology.Proofs.Unit.Powers
import Metrology.Proofs.Unit.Representation
import Metrology.Proofs.Unit.Running

/-!
# Reciprocals

Which units can be divided by. Eight bits hold one more negative number than positive ones,
and the exponents of dimensions make use of it while the powers of factors are kept within
127. So the text `m^-100 cm^-28` is accepted, with a length to the power of -128, and its
reciprocal would have the length to the power of 128, which is refused. A coherent SI unit
may carry -128 as a power of its own, and a dimension may pass through it on the way.

Apart from that number everything can be turned: dividing by a unit turns the powers, and
with them the intermediate dimensions, one by one. A unit divided by itself leaves nothing
in any case.

## Main definitions

* `CompoundUnit.Reversible`: -128 occurs nowhere in a unit.

## Theorems

* `CompoundUnit.pushAll_inverse`: Turned factors cancel.
* `CompoundUnit.foldlM_multiplyPower_eq`: Raising is merging the raised factors.
* `CompoundUnit.runsInRange_inverse_iff`: When the turned factors have a dimension.
* `CompoundUnit.div_none_eq`: The quotient of no unit by a unit is its power by -1.
* `CompoundUnit.reciprocal_iff`: Which units have a reciprocal.
-/

namespace Metrology

namespace Dimension

/-- A dimension in range can be turned if none of its exponents is the least one. -/
theorem fits_neg_iff (d : Dimension) (h : d.Fits) :
    (-d).Fits ↔ ∀ exponent ∈ d.exponents, exponent ≠ -128 := by
  have hneg : (-d).exponents = d.exponents.map (-·) := rfl
  rw [Fits, hneg, List.forall_mem_map]
  refine forall₂_congr fun exponent hmem => ?_
  have hrange := h exponent hmem
  grind

theorem bounds_of_fits (d : Dimension) (h : d.Fits) :
    ∀ exponent ∈ d.exponents, -128 ≤ exponent ∧ exponent ≤ 127 :=
  fun exponent hmem => (inRange_iff exponent).mp (h exponent hmem)

end Dimension

theorem UnitFactor.exponents_inverse {α : Type} (factor : UnitFactor α) :
    factor.inverse.exponents = -factor.exponents :=
  neg_smul factor.power factor.dimension

namespace CompoundUnit

variable {α : Type}

/-- The units in which -128 occurs nowhere: not as a power, not as an exponent that a factor
    contributes, and not in an intermediate dimension. -/
structure Reversible (unit : CompoundUnit α) : Prop where
  powers : ∀ factor ∈ unit.factors, factor.power ≠ -128
  each : ∀ factor ∈ unit.factors, ∀ exponent ∈ factor.exponents.exponents, exponent ≠ -128
  along : ∀ start, start <+: unit.factors →
    ∀ exponent ∈ (exactDimension start).exponents, exponent ≠ -128

section Turning

/-- The turned factors of a product cancel it. -/
theorem pushAll_inverse (factors : List (UnitFactor α))
    (hnonzero : ∀ factor ∈ factors, factor.power ≠ 0) :
    (CompoundUnit.mk factors).pushAll (factors.map UnitFactor.inverse) = .ok none := by
  induction factors with
  | nil => rfl
  | cons factor rest ih =>
      have hrest : ∀ other ∈ rest, other.power ≠ 0 :=
        fun other hother => hnonzero other (List.mem_cons_of_mem _ hother)
      -- The first factor meets its turned self, and the others are left as they are.
      have hpush : (CompoundUnit.mk (factor :: rest)).push factor.inverse = .ok ⟨rest⟩ := by
        have hsymbol : factor.inverse.symbol = factor.symbol := rfl
        have hfind : (factor :: rest).find?
            (fun earlier => earlier.symbol = factor.symbol) = some factor :=
          List.find?_cons_of_pos (by simp)
        have hkept : rest.filter (fun factor => factor.power ≠ 0) = rest := by
          rw [List.filter_eq_self]
          exact fun other hother => by simpa using hrest other hother
        rw [push, hsymbol, hfind]
        simp only [UnitFactor.power_inverse, Int.add_right_neg]
        rw [if_pos (by decide), addPower, if_pos rfl, ofFactors, List.filter_cons_of_neg (by simp),
          hkept]
      rw [List.map_cons, pushAll, List.foldlM_cons, hpush]
      exact ih hrest

/-- Raising factors whose powers stay within 32 bits is merging the raised factors. -/
theorem foldlM_multiplyPower_eq (n : ℤ) (factors : List (UnitFactor α))
    (hword : ∀ factor ∈ factors, inWord (factor.power * n) = true) :
    ∀ product : CompoundUnit α,
      factors.foldlM (fun product factor => multiplyPower n factor >>= product.push) product =
        product.pushAll (factors.map (UnitFactor.times n)) := by
  induction factors with
  | nil => exact fun product => rfl
  | cons factor rest ih =>
      intro product
      have hraised : multiplyPower n factor = .ok (factor.times n) := by
        rw [multiplyPower, if_pos (hword factor List.mem_cons_self)]
        rfl
      rw [List.foldlM_cons, List.map_cons, pushAll, List.foldlM_cons, hraised]
      refine Outcome.bind_congr _ _ _ _ rfl (fun next _ => ?_)
      exact ih (fun other hother => hword other (List.mem_cons_of_mem _ hother)) next

/-- The turned factors have a dimension if the intermediate dimensions can be turned. -/
theorem runsInRange_inverse_iff (factors : List (UnitFactor α)) (h : RunsInRange factors) :
    RunsInRange (factors.map UnitFactor.inverse) ↔
      (∀ factor ∈ factors, ∀ exponent ∈ factor.exponents.exponents, exponent ≠ -128) ∧
        ∀ start, start <+: factors →
          ∀ exponent ∈ (exactDimension start).exponents, exponent ≠ -128 := by
  have hturned : ∀ start : List (UnitFactor α),
      exactDimension (start.map UnitFactor.inverse) = -exactDimension start := exactDimension_neg
  have heach : (∀ factor ∈ factors.map UnitFactor.inverse, factor.exponents.Fits) ↔
      ∀ factor ∈ factors, ∀ exponent ∈ factor.exponents.exponents, exponent ≠ -128 := by
    rw [List.forall_mem_map]
    refine forall₂_congr fun factor hmem => ?_
    rw [UnitFactor.exponents_inverse, Dimension.fits_neg_iff _ (h.each factor hmem)]
  have halong : (∀ start, start <+: factors.map UnitFactor.inverse → (exactDimension start).Fits) ↔
      ∀ start, start <+: factors → ∀ exponent ∈ (exactDimension start).exponents,
        exponent ≠ -128 := by
    constructor
    · intro hstarts start hstart
      rw [← Dimension.fits_neg_iff _ (h.along start hstart), ← hturned]
      exact hstarts _ (hstart.map UnitFactor.inverse)
    · intro hstarts start hstart
      rcases List.prefix_map_iff.mp hstart with ⟨original, horiginal, rfl⟩
      rw [hturned, Dimension.fits_neg_iff _ (h.along original horiginal)]
      exact hstarts original horiginal
  exact ⟨fun hruns => ⟨heach.mp hruns.each, halong.mp hruns.along⟩,
    fun hnone => ⟨heach.mpr hnone.1, halong.mpr hnone.2⟩⟩

end Turning

section Reciprocals

variable [Scalar α]

/-- Nothing divided by a unit is the unit raised to minus one, whether or not it exists. -/
theorem div_none_eq (unit : CompoundUnit α) (htidy : Tidy unit.factors) :
    none.div unit = unit.powInt (-1) := by
  have hword : ∀ factor ∈ unit.factors, inWord (factor.power * -1) = true := by
    intro factor hmem
    have hbounds := htidy.bounded factor hmem
    grind
  have hinverse : (unit.factors.map fun factor => { factor with power := -factor.power }) =
      unit.factors.map (UnitFactor.times (-1)) :=
    congrArg (unit.factors.map ·) UnitFactor.inverse_eq_times
  rw [CompoundUnit.div, hinverse, ← foldlM_multiplyPower_eq (-1) unit.factors hword none]
  rfl

/-- Dividing by a unit that is tidy turns its factors, unless a power is the least one. -/
theorem pushAll_none_inverse (unit result : CompoundUnit α) (htidy : Tidy unit.factors) :
    none.pushAll (unit.factors.map UnitFactor.inverse) = .ok result ↔
      (∀ factor ∈ unit.factors, factor.power ≠ -128) ∧
        result = ⟨unit.factors.map UnitFactor.inverse⟩ := by
  rw [pushAll_distinct]
  · rw [List.forall_mem_map]
    refine and_congr (forall₂_congr fun factor hmem => ?_) Iff.rfl
    have hbounds := htidy.bounded factor hmem
    grind
  · rw [none, List.nil_append, List.map_map]
    exact htidy.distinct
  · intro factor hfactor
    rcases List.mem_map.mp hfactor with ⟨original, hmem, rfl⟩
    exact Int.neg_ne_zero.mpr (htidy.nonzero original hmem)

/-- A unit has a reciprocal if it is reversible, and then the reciprocal has the turned
    factors. -/
theorem div_none_eq_ok (unit result : CompoundUnit α) (h : unit.WellFormed) :
    none.div unit = .ok result ↔
      unit.Reversible ∧ result = ⟨unit.factors.map UnitFactor.inverse⟩ := by
  have hruns := (dimension_isOk_iff unit).mp h.measurable
  have hinverse := runsInRange_inverse_iff unit.factors hruns
  rw [CompoundUnit.div, Outcome.bind_eq_ok]
  constructor
  · rintro ⟨turned, hturned, hcheck⟩
    rcases (pushAll_none_inverse unit turned h.tidy).mp hturned with ⟨hpowers, rfl⟩
    rcases (check_eq_ok_iff_runs _ _).mp hcheck with ⟨rfl, hturnedRuns⟩
    rcases hinverse.mp hturnedRuns with ⟨heach, halong⟩
    exact ⟨⟨hpowers, heach, halong⟩, rfl⟩
  · rintro ⟨⟨hpowers, heach, halong⟩, rfl⟩
    exact ⟨_, (pushAll_none_inverse unit _ h.tidy).mpr ⟨hpowers, rfl⟩,
      (check_eq_ok_iff_runs _ _).mpr ⟨rfl, hinverse.mpr ⟨heach, halong⟩⟩⟩

/-- A derived unit divided by itself is no unit, and its reciprocal is the same whether it is
    made by a division or by a power. Its powers and exponents have at most the magnitude
    127, or they are -128. That none is -128 and that there is a reciprocal, with the turned
    factors and the turned dimension, is the case exactly for the reversible units. For the
    others both ways to a reciprocal are refused as powers that are out of range. -/
theorem reciprocal_iff [UnitScalar α] (unit : CompoundUnit α) (hunit : unit.Derived) :
    ∃ d, unit.dimension = .ok d ∧
      unit.div unit = .ok none ∧
      none.div unit = unit.powInt (-1) ∧
      (∀ factor ∈ unit.factors, |factor.power| ≤ maxPower ∨ factor.power = -128) ∧
      (∀ exponent ∈ d.exponents, |exponent| ≤ maxPower ∨ exponent = -128) ∧
      (((∀ factor ∈ unit.factors, |factor.power| ≤ maxPower) ∧
        (∀ exponent ∈ d.exponents, |exponent| ≤ maxPower) ∧
        ∃ reciprocal, none.div unit = .ok reciprocal ∧ unit.powInt (-1) = .ok reciprocal ∧
          reciprocal.factors = unit.factors.map UnitFactor.inverse ∧
          reciprocal.dimension = .ok (d.map (-·))) ↔ unit.Reversible) ∧
      (¬unit.Reversible → ∃ e, none.div unit = .error e ∧ unit.powInt (-1) = .error e ∧
        e.IsOverflow) := by
  have hformed := hunit.wellFormed
  have htidy := hformed.tidy
  rcases hformed.measures with ⟨d, hd⟩
  have hfits := unit.fits_of_dimension d hd.dimension_eq
  have hsame := div_none_eq unit htidy
  -- Eight bits have one number more than the magnitude allows, and it decides everything.
  have hmagnitude : ∀ power : ℤ, -128 ≤ power → power ≤ 127 →
      (|power| ≤ maxPower ↔ power ≠ -128) := by
    intro power hlow hhigh
    rw [maxPower, abs_le]
    omega
  have hpowers : ∀ factor ∈ unit.factors,
      (|factor.power| ≤ maxPower ↔ factor.power ≠ -128) := fun factor hmem =>
    hmagnitude _ (htidy.bounded factor hmem).1 (htidy.bounded factor hmem).2
  have hexponents : ∀ exponent ∈ d.exponents, (|exponent| ≤ maxPower ↔ exponent ≠ -128) :=
    fun exponent hmem => hmagnitude _ (d.bounds_of_fits hfits exponent hmem).1
      (d.bounds_of_fits hfits exponent hmem).2
  refine ⟨d, hd.dimension_eq, ?_, hsame, fun factor hmem => ?_, fun exponent hmem => ?_, ?_, ?_⟩
  · rw [CompoundUnit.div, Outcome.bind_eq_ok]
    exact ⟨none, pushAll_inverse unit.factors htidy.nonzero, rfl⟩
  · rw [hpowers factor hmem]
    exact (eq_or_ne factor.power (-128)).symm
  · rw [hexponents exponent hmem]
    exact (eq_or_ne exponent (-128)).symm
  · constructor
    · rintro ⟨-, -, reciprocal, hdiv, -, -, -⟩
      exact ((div_none_eq_ok unit reciprocal hformed).mp hdiv).1
    · intro hreversible
      -- The whole list is one of its starts, so the dimension itself avoids -128 too.
      have hdiv := (div_none_eq_ok unit _ hformed).mpr ⟨hreversible, rfl⟩
      have hmeasures := (measures_none.div hd).value_of_ok _ _ hdiv
      refine ⟨fun factor hmem => (hpowers factor hmem).mpr (hreversible.powers factor hmem),
        fun exponent hmem => (hexponents exponent hmem).mpr ?_, _, hdiv, hsame ▸ hdiv, rfl, ?_⟩
      · exact hreversible.along unit.factors List.prefix_rfl exponent (hd.exact.symm ▸ hmem)
      · rw [hmeasures.dimension_eq, zero_sub]
        rfl
  · intro hirreversible
    cases hdiv : none.div unit with
    | ok reciprocal =>
        exact absurd ((div_none_eq_ok unit reciprocal hformed).mp hdiv).1 hirreversible
    | error e =>
        exact ⟨e, rfl, hsame ▸ hdiv, (measures_none.div hd).failure_of_error _ e hdiv⟩

end Reciprocals

/-- The text `m^-100 cm^-28` is accepted, and the unit has the exponent -128. So it has no
    reciprocal, though it can be divided by itself. -/
theorem reciprocal_iff_leastExponent :
    ∃ unit : CompoundUnit Float, read "m^-100 cm^-28" = .ok unit ∧
      unit.dimension = .ok { length := -128 } ∧ unit.div unit = .ok none ∧
      ¬unit.Reversible ∧ ∃ e, none.div unit = .error e ∧ unit.powInt (-1) = .error e := by
  have hread : ((read "m^-100 cm^-28" : Except _ (CompoundUnit Float)).bind dimension) =
      .ok { length := -128 } := Outcome.eq_ok_of_toOption _ _ (by decide +kernel)
  rcases (Outcome.bind_eq_ok _ _ _).mp hread with ⟨unit, hunit, hdimension⟩
  rcases reciprocal_iff unit (.read _ unit hunit) with ⟨d, hd, hself, -, -, -, hiff, hfail⟩
  have hirreversible : ¬unit.Reversible := by
    intro hreversible
    rw [hdimension, Except.ok.injEq] at hd
    subst hd
    have hbound := (hiff.mpr hreversible).2.1 (-128) (by decide)
    exact absurd hbound (by decide)
  rcases hfail hirreversible with ⟨e, hdiv, hpow, -⟩
  exact ⟨unit, hunit, hdimension, hself, hirreversible, e, hdiv, hpow⟩

end CompoundUnit

end Metrology
