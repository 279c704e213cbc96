import Mathlib.Algebra.BigOperators.Group.List.Basic
import Metrology.Proofs.Scalar.Exact
import Metrology.Proofs.Scalar.Rational
import Metrology.Proofs.Unit.Powers
import Metrology.Proofs.Unit.RealScale

/-!
# Scales of products, quotients and powers

How many coherent SI units a unit is, without rounding. The scale of a unit is computed
from the scales of its factors, and on doubles every step of that is rounded, so a product
need not have the product of the scales that are computed. But what is computed is meant
as a number, and read exactly, the scales multiply: the program's own `CompoundUnit.scale`
is run on the exact numbers that the factors carry.

Merging looks at symbols only. That it adds powers of the same number rests on the catalog,
which gives a symbol one scale, and on coherent SI units having theirs from it as well. That
a symbol which cancels can be dropped rests on no scale in the catalog being zero.

## Main definitions

* `ReadScalar`: Scalars that denote numbers.
* `CompoundUnit.exactScale`: The scale of a unit as it is computed on exact numbers.

## Theorems

* `CompoundUnit.push_exactScale`, `CompoundUnit.pushAll_exactScale`: Merging multiplies.
* `CompoundUnit.operations_homomorphic`: Dimensions and scales of products, quotients and
  integer powers.
-/

namespace Metrology

open Arithmetic (ofDecimal one)

/-- Scalars that denote numbers, of which no symbol of the catalog has zero as its scale. -/
class ReadScalar (α : Type) [Scalar α] extends UnitScalar α where
  number : α → ExactReal
  number_ne_zero (symbol : String) (dimension : Dimension) (scale : α)
    (h : Catalog.lookup symbol = some (dimension, scale)) : (number scale).toReal ≠ 0

/-- A double denotes a quotient of integers, and as the scale of a symbol not zero. -/
noncomputable instance : ReadScalar Float where
  number x := (Double.toRat x : ℝ)
  number_ne_zero symbol dimension scale h := by
    -- A scale with a prefix is rounded, so it could be zero even if no factor of it is.
    have hentry : ∀ entry ∈ Catalog.entries (α := Float), Double.toRat entry.scale ≠ 0 := by
      decide +kernel
    have hprefixed : ∀ entry ∈ Catalog.entries (α := Float), ∀ unitPrefix ∈ Catalog.prefixes,
        Double.toRat (entry.scale * ofDecimal ⟨1, unitPrefix.2⟩) ≠ 0 := by
      decide +kernel
    exact Rat.cast_ne_zero.mpr (Catalog.scale_of_lookup (fun scale => Double.toRat scale ≠ 0)
      hentry hprefixed symbol (dimension, scale) h)

/-- An exact number denotes itself. -/
noncomputable instance : ReadScalar ExactReal where
  number x := x
  number_ne_zero symbol dimension scale h := by
    have hentry : ∀ entry ∈ Catalog.entries (α := ExactReal), entry.scale.toReal ≠ 0 :=
      fun entry hmem => (Catalog.entries_pos entry hmem).ne'
    refine Catalog.scale_of_lookup (fun scale => scale.toReal ≠ 0) hentry ?_ symbol
      (dimension, scale) h
    intro entry hmem unitPrefix _
    rw [ExactReal.toReal_mul, ExactReal.ofDecimal_eq, Nat.cast_one, one_mul]
    exact mul_ne_zero (hentry entry hmem) (zpow_ne_zero unitPrefix.2 (by norm_num))

namespace ExactReal

theorem powInt_eq (x : ExactReal) (n : ℤ) : (Arithmetic.powInt x n).toReal = x.toReal ^ n :=
  RealScalar.powInt_eq x n

end ExactReal

namespace CompoundUnit

variable {α : Type} [Scalar α] [ReadScalar α]

/-- The unit with the scales of its factors read as exact numbers. -/
def exact (unit : CompoundUnit α) : CompoundUnit ExactReal :=
  ⟨unit.factors.map fun factor =>
    ⟨factor.symbol, factor.dimension, ReadScalar.number factor.scale, factor.power⟩⟩

/-- The scale of a unit as it is computed on exact numbers. -/
noncomputable def exactScale (unit : CompoundUnit α) : ℝ := unit.exact.scale.toReal

/-- What a factor contributes to a scale. -/
noncomputable def factorScale (factor : UnitFactor α) : ℝ :=
  (ReadScalar.number factor.scale).toReal ^ factor.power

section Lists

omit [Scalar α] [ReadScalar α] in
theorem foldl_scale (factors : List (UnitFactor ExactReal)) :
    ∀ product : ExactReal,
      (factors.foldl (fun product factor => product * Arithmetic.powInt factor.scale factor.power)
        product).toReal =
      product.toReal * (factors.map fun factor => factor.scale.toReal ^ factor.power).prod := by
  induction factors with
  | nil => exact fun product => (mul_one _).symm
  | cons factor rest ih =>
      intro product
      rw [List.foldl_cons, ih, ExactReal.toReal_mul, ExactReal.powInt_eq, List.map_cons,
        List.prod_cons, mul_assoc]

/-- The exact scale is the product of what the factors contribute. -/
theorem exactScale_eq_prod (unit : CompoundUnit α) :
    unit.exactScale = (unit.factors.map factorScale).prod := by
  rw [exactScale, scale, foldl_scale, ExactReal.one_eq, one_mul, exact, List.map_map]
  rfl

theorem factorScale_ne_zero (factor : UnitFactor α) (h : Known factor) : factorScale factor ≠ 0 :=
  zpow_ne_zero _ (ReadScalar.number_ne_zero factor.symbol factor.dimension factor.scale h)

theorem exactScale_ne_zero (unit : CompoundUnit α) (h : Tidy unit.factors) :
    unit.exactScale ≠ 0 := by
  rw [exactScale_eq_prod]
  refine List.prod_ne_zero ?_
  intro hzero
  rcases List.mem_map.mp hzero with ⟨factor, hmem, hfactor⟩
  exact factorScale_ne_zero factor (h.known factor hmem) hfactor

/-- A power of zero does not count. -/
theorem prod_ofFactors (factors : List (UnitFactor α)) :
    ((ofFactors factors).factors.map factorScale).prod = (factors.map factorScale).prod := by
  unfold ofFactors
  induction factors with
  | nil => rfl
  | cons factor rest ih =>
      by_cases hpower : factor.power = 0
      · rw [List.filter_cons_of_neg (by simp [hpower]), ih, List.map_cons, List.prod_cons,
          factorScale, hpower, zpow_zero, one_mul]
      · rw [List.filter_cons_of_pos (by simp [hpower]), List.map_cons, List.prod_cons, ih,
          List.map_cons, List.prod_cons]

/-- Adding to the power of a factor multiplies with a power of its scale. -/
theorem prod_addPower (symbol : String) (power : ℤ) (factors : List (UnitFactor α))
    (earlier : UnitFactor α)
    (h : factors.find? (fun factor => factor.symbol = symbol) = some earlier)
    (hnonzero : (ReadScalar.number earlier.scale).toReal ≠ 0) :
    ((addPower symbol power factors).map factorScale).prod =
      (factors.map factorScale).prod * (ReadScalar.number earlier.scale).toReal ^ power := by
  induction factors with
  | nil => cases h
  | cons factor rest ih =>
      rw [addPower]
      by_cases hsame : factor.symbol = symbol
      · -- Here powers of one number meet, and they add up only if it is not zero.
        rw [List.find?_cons_of_pos (by simp [hsame]), Option.some.injEq] at h
        subst h
        rw [if_pos hsame, List.map_cons, List.prod_cons, List.map_cons, List.prod_cons, factorScale,
          zpow_add₀ hnonzero, factorScale, mul_right_comm]
      · rw [List.find?_cons_of_neg (by simp [hsame])] at h
        rw [if_neg hsame, List.map_cons, List.prod_cons, ih h, List.map_cons, List.prod_cons,
          mul_assoc]

/-- Multiplying powers raises the scale. -/
theorem prod_times (n : ℤ) (factors : List (UnitFactor α)) :
    ((factors.map (UnitFactor.times n)).map factorScale).prod =
      (factors.map factorScale).prod ^ n := by
  induction factors with
  | nil => exact (one_zpow n).symm
  | cons factor rest ih =>
      rw [List.map_cons, List.map_cons, List.prod_cons, ih, List.map_cons, List.prod_cons, mul_zpow,
        factorScale, factorScale, UnitFactor.times, zpow_mul]

omit [ReadScalar α] in
/-- Multiplying the power of a symbol leaves it its meaning. -/
theorem known_times (n : ℤ) (factors : List (UnitFactor α))
    (h : ∀ factor ∈ factors, Known factor) :
    ∀ factor ∈ factors.map (UnitFactor.times n), Known factor :=
  List.forall_mem_map.mpr h

end Lists

section Operations

/-- Merging a factor multiplies with what it contributes. -/
theorem push_exactScale (unit result : CompoundUnit α) (factor : UnitFactor α)
    (hunit : Tidy unit.factors) (hknown : Known factor) (h : unit.push factor = .ok result) :
    result.exactScale = unit.exactScale * factorScale factor := by
  rw [exactScale_eq_prod, exactScale_eq_prod]
  rcases push_eq_ok unit result factor h with ⟨earlier, hfind, -, rfl⟩ | ⟨-, -, rfl⟩
  · -- The catalog gives both occurrences of the symbol one scale, which is not zero.
    have hmem := List.mem_of_find?_eq_some hfind
    have hsymbol : earlier.symbol = factor.symbol := by simpa using List.find?_some hfind
    have hmeaning := hunit.known earlier hmem
    rw [Known, hsymbol, hknown, Option.some.injEq, Prod.mk.injEq] at hmeaning
    have hnonzero := ReadScalar.number_ne_zero _ _ _ (hunit.known earlier hmem)
    rw [prod_ofFactors, prod_addPower _ _ _ earlier hfind hnonzero, ← hmeaning.2, factorScale]
  · rw [prod_ofFactors, List.map_append, List.prod_append, List.map_singleton, List.prod_singleton]

/-- Merging factors multiplies with what they contribute. -/
theorem pushAll_exactScale (factors : List (UnitFactor α))
    (hknown : ∀ factor ∈ factors, Known factor) :
    ∀ unit result : CompoundUnit α, Tidy unit.factors → unit.pushAll factors = .ok result →
      result.exactScale = unit.exactScale * (factors.map factorScale).prod := by
  induction factors with
  | nil =>
      intro unit result _ h
      rw [pushAll, List.foldlM_nil, Outcome.pure_eq_ok] at h
      rw [← h, List.map_nil, List.prod_nil, mul_one]
  | cons factor rest ih =>
      intro unit result hunit h
      have hfactor := hknown factor List.mem_cons_self
      rw [pushAll, List.foldlM_cons, Outcome.bind_eq_ok] at h
      rcases h with ⟨next, hnext, hrest⟩
      rw [ih (fun f hf => hknown f (List.mem_cons_of_mem _ hf)) next result
        (push_tidy unit next factor hunit hfactor hnext) hrest,
        push_exactScale unit next factor hunit hfactor hnext, List.map_cons, List.prod_cons,
        mul_assoc]

variable (unit other result : CompoundUnit α)

theorem mul_exactScale (hunit : Tidy unit.factors) (hother : Tidy other.factors)
    (h : unit.mul other = .ok result) : result.exactScale = unit.exactScale * other.exactScale := by
  rw [other.exactScale_eq_prod]
  exact pushAll_exactScale other.factors hother.known unit result hunit
    (pushAll_of_mul unit other result h)

theorem div_exactScale (hunit : Tidy unit.factors) (hother : Tidy other.factors)
    (h : unit.div other = .ok result) : result.exactScale = unit.exactScale / other.exactScale := by
  rw [other.exactScale_eq_prod, div_eq_mul_inv, ← zpow_neg_one, ← prod_times]
  exact pushAll_exactScale _ (known_times (-1) other.factors hother.known) unit result hunit
    (pushAll_of_div unit other result h)

theorem powInt_exactScale (n : ℤ) (hunit : Tidy unit.factors) (h : unit.powInt n = .ok result) :
    result.exactScale = unit.exactScale ^ n := by
  have hnone : (none : CompoundUnit α).exactScale = 1 := exactScale_eq_prod _
  rw [pushAll_exactScale _ (known_times n unit.factors hunit.known) none result tidy_nil
    (pushAll_of_powInt unit result n h), prod_times, ← exactScale_eq_prod, hnone, one_mul]

/-- Derived units have a dimension and a scale other than zero. Wherever a product, a
    quotient or an integer power of them exists, its exponents are the sums, the differences
    or the multiples of theirs as integers, and its scale is the product, the quotient or the
    power of theirs as numbers. -/
theorem operations_homomorphic (hunit : unit.Derived) (hother : other.Derived) :
    ∃ d e, unit.dimension = .ok d ∧ other.dimension = .ok e ∧
      unit.exactScale ≠ 0 ∧ other.exactScale ≠ 0 ∧
      (∀ product, unit.mul other = .ok product →
        product.dimension = .ok (Dimension.zipWith (· + ·) d e) ∧
        product.exactScale = unit.exactScale * other.exactScale) ∧
      (∀ quotient, unit.div other = .ok quotient →
        quotient.dimension = .ok (Dimension.zipWith (· - ·) d e) ∧
        quotient.exactScale = unit.exactScale / other.exactScale) ∧
      ∀ n power, unit.powInt n = .ok power →
        power.dimension = .ok (d.map (· * n)) ∧ power.exactScale = unit.exactScale ^ n := by
  rcases hunit.wellFormed.measures with ⟨d, hd⟩
  rcases hother.wellFormed.measures with ⟨e, he⟩
  refine ⟨d, e, hd.dimension_eq, he.dimension_eq, exactScale_ne_zero unit hd.tidy,
    exactScale_ne_zero other he.tidy, fun product h => ?_, fun quotient h => ?_,
    fun n power h => ?_⟩
  · have hproduct := (hd.mul he).value_of_ok _ product h
    exact ⟨hproduct.dimension_eq, mul_exactScale unit other product hd.tidy he.tidy h⟩
  · have hquotient := (hd.div he).value_of_ok _ quotient h
    exact ⟨hquotient.dimension_eq, div_exactScale unit other quotient hd.tidy he.tidy h⟩
  · have hpower := (hd.powInt n).value_of_ok _ power h
    exact ⟨hpower.dimension_eq, powInt_exactScale unit power n hd.tidy h⟩

end Operations

section Hours

/-- What is left of `km / h^2` times `h cm^2`: one of the two hours has cancelled. -/
def swept : CompoundUnit Float :=
  ⟨[⟨"km", { length := 1 }, one * ofDecimal ⟨1, 3⟩, 1⟩,
    ⟨"h", { time := 1 }, Arithmetic.ofNat 3600, -1⟩,
    ⟨"cm", { length := 1 }, one * ofDecimal ⟨1, -2⟩, 2⟩]⟩

/-- The hour that cancels is gone, with its exponents and its scale. -/
theorem operations_homomorphic_hours :
    ∃ acceleration column : CompoundUnit Float,
      read "km / h^2" = .ok acceleration ∧ read "h cm^2" = .ok column ∧
      acceleration.mul column = .ok swept ∧
      swept.dimension = .ok { length := 3, time := -1 } ∧
      swept.exactScale = acceleration.exactScale * column.exactScale := by
  have hread : ((read "km / h^2" : Except _ (CompoundUnit Float)).bind fun acceleration =>
      (read "h cm^2").bind fun column => acceleration.mul column) = .ok swept :=
    Outcome.eq_ok_of_toOption _ _ (by decide +kernel)
  rcases (Outcome.bind_eq_ok _ _ _).mp hread with ⟨acceleration, hacceleration, hrest⟩
  rcases (Outcome.bind_eq_ok _ _ _).mp hrest with ⟨column, hcolumn, hproduct⟩
  rcases operations_homomorphic acceleration column (.read _ _ hacceleration) (.read _ _ hcolumn)
    with ⟨d, e, -, -, -, -, hmul, -⟩
  exact ⟨acceleration, column, hacceleration, hcolumn, hproduct,
    Outcome.eq_ok_of_toOption _ _ (by decide), (hmul swept hproduct).2⟩

end Hours

end CompoundUnit

end Metrology
