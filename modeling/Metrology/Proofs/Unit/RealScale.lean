import Metrology.Proofs.Scalar.Real
import Metrology.Proofs.Unit.Derived

/-!
# Units of real numbers

With real numbers as scalars, a unit is a positive number of coherent SI units. The catalog
has no scale that is not positive, prefixes are powers of ten, and products and powers of
positive numbers are positive. So numbers can be taken from one unit into another and back,
and no conversion changes a sign.

## Theorems

* `Catalog.scale_of_lookup`: Where the scales of symbols come from.
* `Catalog.entries_pos`, `Catalog.lookup_pos`: The scales of symbols are positive.
* `CompoundUnit.scale_pos`: The scale of a unit is positive.
-/

namespace Metrology

open Arithmetic (ofDecimal)

/-- Real numbers meet what units ask of scalars. Half of a doubled power is an integer, so
    the tolerance for what stands for an integer plays no part. -/
instance RealScalar.instUnitScalar : UnitScalar ℝ where
  kilo_milli := by
    rw [RealScalar.ofDecimal_eq, RealScalar.ofDecimal_eq, RealScalar.one_eq]
    norm_num
  half_double power hlow hhigh := by
    have hhalf : (Arithmetic.ofInt (power * 2) * ofDecimal ⟨5, -1⟩ : ℝ) = power := by
      rw [RealScalar.ofInt_eq, RealScalar.ofDecimal_eq]
      push_cast
      ring
    rw [CompoundUnit.scaledPower?, hhalf]
    change (if (1e-9 : ℝ) < |(power : ℝ) - round (power : ℝ)| then none
      else some (max (-2147483648) (min 2147483647 (round (power : ℝ))))) = some power
    rw [round_intCast, sub_self, abs_zero, if_neg (by norm_num), min_eq_right (by omega),
      max_eq_right (by omega)]

namespace Catalog

section Lookup

variable {α : Type} [Scalar α]

theorem mem_entries_of_entry (symbol : String) (entry : Entry α) (h : entry? symbol = some entry) :
    entry ∈ entries := by
  unfold entry? at h
  exact List.mem_of_find?_eq_some h

/-- The scale of a symbol is that of an entry, or that multiplied with the factor of a
    prefix. -/
theorem scale_of_lookup (holds : α → Prop) (hentry : ∀ entry ∈ entries (α := α), holds entry.scale)
    (hprefixed : ∀ entry ∈ entries (α := α), ∀ unitPrefix ∈ prefixes,
      holds (entry.scale * ofDecimal ⟨1, unitPrefix.2⟩))
    (symbol : String) (meaning : Dimension × α) (h : lookup symbol = some meaning) :
    holds meaning.2 := by
  unfold lookup at h
  cases hplain : entry? (α := α) symbol with
  | some entry =>
      rw [hplain, Option.some.injEq] at h
      exact h ▸ hentry entry (mem_entries_of_entry symbol entry hplain)
  | none =>
      rw [hplain] at h
      rcases List.exists_of_findSome?_eq_some h with ⟨⟨unitPrefix, power⟩, hmem, hfound⟩
      simp only [prefixed?, Option.bind_eq_bind, Option.bind_eq_some_iff, Option.pure_def,
        Option.some.injEq] at hfound
      rcases hfound with ⟨rest, -, entry, hfind, -, -, rfl⟩
      exact hprefixed entry (mem_entries_of_entry _ entry hfind) _ hmem

end Lookup

/-- No scale in the catalog is zero or negative. -/
theorem entries_pos : ∀ entry ∈ entries (α := ℝ), 0 < entry.scale := by
  simp only [entries, List.forall_mem_cons, RealScalar.one_eq, RealScalar.ofNat_eq,
    RealScalar.ofDecimal_eq]
  norm_num
  -- The degree is the only unit with a scale that is not rational.
  exact Real.pi_pos

/-- Neither is one with a prefix. -/
theorem lookup_pos (symbol : String) (meaning : Dimension × ℝ) (h : lookup symbol = some meaning) :
    0 < meaning.2 := by
  refine scale_of_lookup (0 < ·) entries_pos (fun entry hmem unitPrefix _ => ?_) symbol meaning h
  refine mul_pos (entries_pos entry hmem) ?_
  rw [RealScalar.ofDecimal_eq, Nat.cast_one, one_mul]
  exact zpow_pos (by norm_num) unitPrefix.2

end Catalog

/-- The scale of a unit is positive. -/
theorem CompoundUnit.scale_pos (unit : CompoundUnit ℝ) (h : unit.WellFormed) : 0 < unit.scale := by
  have hscale : ∀ (factors : List (UnitFactor ℝ)) (product : ℝ),
      (∀ factor ∈ factors, Known factor) → 0 < product →
        0 < factors.foldl (fun product factor =>
          product * Arithmetic.powInt factor.scale factor.power) product := by
    intro factors
    induction factors with
    | nil => exact fun product _ hproduct => hproduct
    | cons factor rest ih =>
        intro product hknown hproduct
        rw [List.forall_mem_cons] at hknown
        refine ih _ hknown.2 (mul_pos hproduct ?_)
        rw [RealScalar.powInt_eq]
        exact zpow_pos (Catalog.lookup_pos factor.symbol _ hknown.1) factor.power
  exact hscale unit.factors _ h.tidy.known (RealScalar.one_eq ▸ zero_lt_one)

end Metrology
