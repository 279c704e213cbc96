import Mathlib.Data.List.Nodup
import Metrology.Proofs.Outcome
import Metrology.Unit.Reader

/-!
# Well-formed units

The shape of units, and the dimension that a product of factors has. Reading
and the operations go through one merging step, `CompoundUnit.push`, and that
step decides the shape: a symbol stands in a product once, under the meaning
that the catalog gives it, with a power that is not zero. Merging itself keeps
powers within 127, but the coherent SI unit of a dimension may carry -128, so
that is the bound here.

The dimension of a product is checked after every factor, so whether a product
has one may depend on the order of its factors. Which one it has does not:
`exactDimension` adds up the exponents without a check.

## Main definitions

* `CompoundUnit.Tidy`: The shape that merging keeps.
* `CompoundUnit.exactDimension`: The dimension of a product without a check.
* `CompoundUnit.WellFormed`: Tidy, and with a dimension.

## Theorems

* `CompoundUnit.push_eq_ok`: What merging a factor does.
* `CompoundUnit.pushAll_distinct`: Merging distinct symbols appends them.
* `CompoundUnit.tidy_ofFactors`, `CompoundUnit.push_tidy`,
  `CompoundUnit.pushAll_tidy`: Merging keeps the shape.
* `CompoundUnit.multiplyDimension_eq_ok`: One step of a dimension.
* `CompoundUnit.eq_exactDimension`: A dimension in range is the exact one.
* `CompoundUnit.exactDimension_perm`, `CompoundUnit.dimension_of_perm`: The
  order of factors does not matter for it.
-/

namespace Metrology

namespace Dimension

@[simp, grind =]
theorem inRange_iff (exponent : Int) :
    inRange exponent = true ↔ -128 ≤ exponent ∧ exponent ≤ 127 := by
  rw [inRange, Bool.and_eq_true, decide_eq_true_eq, decide_eq_true_eq]

/-- Whether every exponent fits into eight bits. -/
def Fits (d : Dimension) : Prop := ∀ exponent ∈ d.exponents, inRange exponent = true

theorem fits_one : one.Fits := by
  unfold Fits
  decide

theorem mul_eq_ok_iff (a b e : Dimension) :
    a.mul b = .ok e ↔ e = zipWith (· + ·) a b ∧ (zipWith (· + ·) a b).Fits :=
  check_eq_ok_iff _ _ _

theorem pow_eq_ok_iff (d e : Dimension) (n : Int) :
    d.pow n = .ok e ↔ e = d.map (· * n) ∧ (d.map (· * n)).Fits :=
  check_eq_ok_iff _ _ _

theorem map_mul_zero (d : Dimension) : d.map (· * 0) = one := by
  simp only [map, zipWith, Int.mul_zero, one]

theorem zipWith_add_one (d : Dimension) : zipWith (· + ·) d one = d := by
  simp only [zipWith, one, Int.add_zero]

end Dimension

/-- What a factor adds to the exponents of a product. -/
def UnitFactor.exponents {α : Type} (factor : UnitFactor α) : Dimension :=
  factor.dimension.map (· * factor.power)

/-- The factor with its power multiplied. -/
def UnitFactor.times {α : Type} (n : Int) (factor : UnitFactor α) : UnitFactor α :=
  { factor with power := factor.power * n }

theorem UnitFactor.power_times {α : Type} (n : Int) (factor : UnitFactor α) :
    (factor.times n).power = factor.power * n := rfl

namespace CompoundUnit

variable {α : Type}

section Merging

/-- A symbol with the meaning that the catalog gives it. -/
def Known [Scalar α] (factor : UnitFactor α) : Prop :=
  Catalog.lookup factor.symbol = some (factor.dimension, factor.scale)

/-- The shape that merging keeps: each symbol once, with its meaning, and with a
    power other than zero that fits into eight bits. -/
structure Tidy [Scalar α] (factors : List (UnitFactor α)) : Prop where
  distinct : (factors.map (·.symbol)).Nodup
  known : ∀ factor ∈ factors, Known factor
  nonzero : ∀ factor ∈ factors, factor.power ≠ 0
  bounded : ∀ factor ∈ factors, -128 ≤ factor.power ∧ factor.power ≤ 127

@[simp, grind =]
theorem inRange_iff (power : Int) : inRange power = true ↔ -127 ≤ power ∧ power ≤ 127 := by
  rw [inRange, Bool.and_eq_true, decide_eq_true_eq, decide_eq_true_eq]
  exact Iff.rfl

@[simp, grind =]
theorem inWord_iff (n : Int) : inWord n = true ↔ -2 ^ 31 ≤ n ∧ n < 2 ^ 31 := by
  rw [inWord, Bool.and_eq_true, decide_eq_true_eq, decide_eq_true_eq]

theorem mem_ofFactors (factors : List (UnitFactor α)) (factor : UnitFactor α) :
    factor ∈ (ofFactors factors).factors ↔ factor ∈ factors ∧ factor.power ≠ 0 := by
  simp only [ofFactors, List.mem_filter, decide_eq_true_eq]

theorem map_symbol_addPower (symbol : String) (power : Int) (factors : List (UnitFactor α)) :
    (addPower symbol power factors).map (·.symbol) = factors.map (·.symbol) := by
  induction factors with
  | nil => rfl
  | cons factor rest ih =>
      rw [addPower]
      by_cases h : factor.symbol = symbol
      · rw [if_pos h, List.map_cons, List.map_cons]
      · rw [if_neg h, List.map_cons, List.map_cons, ih]

/-- The factors after an addition: those of before, and the first with the
    symbol, whose power has changed. -/
theorem mem_addPower (symbol : String) (power : Int) (factors : List (UnitFactor α))
    (factor : UnitFactor α) (h : factor ∈ addPower symbol power factors) :
    factor ∈ factors ∨ ∃ earlier ∈ factors,
      factors.find? (fun earlier => earlier.symbol = symbol) = some earlier ∧
      factor = { earlier with power := earlier.power + power } := by
  induction factors with
  | nil => exact Or.inl h
  | cons first rest ih =>
      rw [addPower] at h
      by_cases hfirst : first.symbol = symbol
      · -- Only the first factor with the symbol changes; what is behind it stays.
        rw [if_pos hfirst] at h
        rcases List.mem_cons.mp h with rfl | h
        · refine Or.inr ⟨first, List.mem_cons_self, ?_, rfl⟩
          rw [List.find?_cons_of_pos (by simp only [hfirst, decide_true])]
        · exact Or.inl (List.mem_cons_of_mem _ h)
      · rw [if_neg hfirst] at h
        rcases List.mem_cons.mp h with rfl | h
        · exact Or.inl List.mem_cons_self
        · rcases ih h with h | ⟨earlier, hmem, hfind, heq⟩
          · exact Or.inl (List.mem_cons_of_mem _ h)
          · refine Or.inr ⟨earlier, List.mem_cons_of_mem _ hmem, ?_, heq⟩
            rw [List.find?_cons_of_neg (by simp only [hfirst, decide_false, Bool.false_eq_true,
              not_false_eq_true]), hfind]

/-- What merging does: it adds to the power of the symbol, or else it puts the
    factor behind the others. -/
theorem push_eq_ok (unit result : CompoundUnit α) (factor : UnitFactor α)
    (h : unit.push factor = .ok result) :
    (∃ earlier, unit.factors.find? (fun earlier => earlier.symbol = factor.symbol) = some earlier ∧
      inRange (earlier.power + factor.power) = true ∧
      result = ofFactors (addPower factor.symbol factor.power unit.factors)) ∨
    (unit.factors.find? (fun earlier => earlier.symbol = factor.symbol) = Option.none ∧
      inRange factor.power = true ∧ result = ofFactors (unit.factors ++ [factor])) := by
  unfold push at h
  cases hfind : unit.factors.find? (fun earlier => earlier.symbol = factor.symbol) with
  | some earlier =>
      simp only [hfind] at h
      by_cases hrange : inRange (earlier.power + factor.power) = true
      · rw [if_pos hrange, Except.ok.injEq] at h
        exact Or.inl ⟨earlier, rfl, hrange, h.symm⟩
      · rw [if_neg hrange] at h
        exact absurd h (by simp only [reduceCtorEq, not_false_eq_true])
  | none =>
      simp only [hfind] at h
      by_cases hrange : inRange factor.power = true
      · rw [if_pos hrange, Except.ok.injEq] at h
        exact Or.inr ⟨rfl, hrange, h.symm⟩
      · rw [if_neg hrange] at h
        exact absurd h (by simp only [reduceCtorEq, not_false_eq_true])

theorem pushAll_append (unit : CompoundUnit α) (first second : List (UnitFactor α)) :
    unit.pushAll (first ++ second) = unit.pushAll first >>= fun next => next.pushAll second := by
  rw [pushAll, List.foldlM_append]
  rfl

theorem push_absent (unit : CompoundUnit α) (factor : UnitFactor α)
    (habsent : factor.symbol ∉ unit.factors.map (·.symbol)) :
    unit.push factor =
      if inRange factor.power then .ok (ofFactors (unit.factors ++ [factor]))
      else .error (.powerOverflow (.single factor.symbol factor.power)) := by
  have hfind : unit.factors.find? (fun earlier => earlier.symbol = factor.symbol) =
      Option.none := by
    rw [List.find?_eq_none]
    intro earlier hmem heq
    exact habsent (List.mem_map.mpr ⟨earlier, hmem, by simpa using heq⟩)
  rw [push, hfind]

/-- Merging factors whose symbols are new puts them behind the others. -/
theorem pushAll_distinct (factors : List (UnitFactor α)) :
    ∀ unit result : CompoundUnit α, ((unit.factors ++ factors).map (·.symbol)).Nodup →
      (∀ factor ∈ unit.factors ++ factors, factor.power ≠ 0) →
      (unit.pushAll factors = .ok result ↔
        (∀ factor ∈ factors, inRange factor.power = true) ∧
          result = ⟨unit.factors ++ factors⟩) := by
  induction factors with
  | nil =>
      intro unit result _ _
      rw [pushAll, List.foldlM_nil, Outcome.pure_eq_ok, List.append_nil]
      constructor
      · intro h
        exact ⟨fun _ hf => absurd hf List.not_mem_nil, h.symm⟩
      · intro h
        exact h.2.symm
  | cons factor rest ih =>
      intro unit result hnodup hnonzero
      -- The unit grows by the head, so the induction needs it as a parameter.
      have habsent : factor.symbol ∉ unit.factors.map (·.symbol) := by
        rw [List.map_append, List.nodup_append] at hnodup
        intro hmem
        exact hnodup.2.2 _ hmem factor.symbol (by simp) rfl
      -- No power is zero, so nothing is left out.
      have hkept : (ofFactors (unit.factors ++ [factor])).factors = unit.factors ++ [factor] := by
        rw [ofFactors, List.filter_eq_self]
        intro f hf
        have hmem : f ∈ unit.factors ++ factor :: rest := by
          rcases List.mem_append.mp hf with hf | hf
          · exact List.mem_append_left _ hf
          · rw [List.mem_singleton.mp hf]
            exact List.mem_append_right _ List.mem_cons_self
        simpa using hnonzero f hmem
      have hassoc : unit.factors ++ [factor] ++ rest = unit.factors ++ factor :: rest := by
        rw [List.append_assoc, List.singleton_append]
      rw [pushAll, List.foldlM_cons, push_absent unit factor habsent, List.forall_mem_cons]
      by_cases hrange : inRange factor.power = true
      · rw [if_pos hrange]
        have hnext := ih (ofFactors (unit.factors ++ [factor])) result
          (by rw [hkept, hassoc]; exact hnodup) (by rw [hkept, hassoc]; exact hnonzero)
        rw [hkept, hassoc] at hnext
        rw [and_iff_right hrange]
        exact hnext
      · rw [if_neg hrange]
        constructor
        · intro h
          exact absurd h (by simp [bind, Except.bind])
        · intro h
          exact absurd h.1.1 hrange

/-- Raising factors one by one merges the raised factors. -/
theorem foldlM_multiplyPower (n : Int) (factors : List (UnitFactor α)) :
    ∀ product result : CompoundUnit α,
      factors.foldlM (fun product factor => multiplyPower n factor >>= product.push) product =
          .ok result →
        product.pushAll (factors.map (UnitFactor.times n)) =
          .ok result := by
  induction factors with
  | nil => exact fun product result h => h
  | cons factor rest ih =>
      intro product result h
      rw [List.foldlM_cons, Outcome.bind_eq_ok] at h
      rcases h with ⟨next, hnext, hrest⟩
      rw [Outcome.bind_eq_ok] at hnext
      rcases hnext with ⟨raised, hraised, hpush⟩
      rw [List.map_cons, pushAll, List.foldlM_cons, Outcome.bind_eq_ok]
      refine ⟨next, ?_, ih next result hrest⟩
      rw [multiplyPower] at hraised
      split at hraised
      · rw [Except.ok.injEq] at hraised
        rw [UnitFactor.times, hraised]
        exact hpush
      · exact absurd hraised (by simp only [reduceCtorEq, not_false_eq_true])

variable [Scalar α]

theorem tidy_nil : Tidy ([] : List (UnitFactor α)) where
  distinct := List.nodup_nil
  known := fun _ h => absurd h List.not_mem_nil
  nonzero := fun _ h => absurd h List.not_mem_nil
  bounded := fun _ h => absurd h List.not_mem_nil

/-- Leaving out the powers that are zero makes factors tidy that are so otherwise. -/
theorem tidy_ofFactors (factors : List (UnitFactor α))
    (hdistinct : (factors.map (·.symbol)).Nodup) (hknown : ∀ factor ∈ factors, Known factor)
    (hbounded : ∀ factor ∈ factors, -128 ≤ factor.power ∧ factor.power ≤ 127) :
    Tidy (ofFactors factors).factors where
  distinct := hdistinct.sublist (List.Sublist.map _ List.filter_sublist)
  known := fun f hf => hknown f ((mem_ofFactors _ f).mp hf).1
  nonzero := fun f hf => ((mem_ofFactors _ f).mp hf).2
  bounded := fun f hf => hbounded f ((mem_ofFactors _ f).mp hf).1

/-- Merging keeps the shape of a unit, whatever the power of the new factor. -/
theorem push_tidy (unit result : CompoundUnit α) (factor : UnitFactor α)
    (hunit : Tidy unit.factors) (hknown : Known factor) (h : unit.push factor = .ok result) :
    Tidy result.factors := by
  rcases push_eq_ok unit result factor h with ⟨earlier, hfind, hrange, rfl⟩ | ⟨hfind, hrange, rfl⟩
  · -- The symbol is there: one factor has another power, which was checked.
    rw [inRange_iff] at hrange
    have hsplit : ∀ f ∈ addPower factor.symbol factor.power unit.factors, f ∈ unit.factors ∨
        earlier ∈ unit.factors ∧ f = { earlier with power := earlier.power + factor.power } := by
      intro f hf
      rcases mem_addPower _ _ _ f hf with hf | ⟨e, hmem, he, rfl⟩
      · exact Or.inl hf
      · rw [hfind, Option.some.injEq] at he
        exact Or.inr ⟨he ▸ hmem, by rw [he]⟩
    refine tidy_ofFactors _ ?_ ?_ ?_
    · rw [map_symbol_addPower]
      exact hunit.distinct
    · intro f hf
      rcases hsplit f hf with hf | ⟨hmem, rfl⟩
      · exact hunit.known f hf
      · exact hunit.known earlier hmem
    · intro f hf
      rcases hsplit f hf with hf | ⟨-, rfl⟩
      · exact hunit.bounded f hf
      · simp only
        omega
  · -- The symbol is new, so it is not among those before it.
    rw [inRange_iff] at hrange
    refine tidy_ofFactors _ ?_ ?_ ?_
    · rw [List.map_append, List.map_singleton, List.nodup_append]
      refine ⟨hunit.distinct, List.nodup_singleton _, ?_⟩
      intro symbol hsymbol other hother
      rcases List.mem_map.mp hsymbol with ⟨f, hf, rfl⟩
      rw [List.mem_singleton.mp hother]
      simpa using List.find?_eq_none.mp hfind f hf
    · intro f hf
      rcases List.mem_append.mp hf with hf | hf
      · exact hunit.known f hf
      · exact List.mem_singleton.mp hf ▸ hknown
    · intro f hf
      rcases List.mem_append.mp hf with hf | hf
      · exact hunit.bounded f hf
      · rw [List.mem_singleton.mp hf]
        omega

/-- What is merged into a unit without leaving the range is small. -/
theorem push_small (unit result : CompoundUnit α) (factor : UnitFactor α)
    (htidy : Tidy unit.factors) (h : unit.push factor = .ok result) :
    -255 ≤ factor.power ∧ factor.power ≤ 255 := by
  rcases push_eq_ok unit result factor h with ⟨earlier, hfind, hrange, -⟩ | ⟨-, hrange, -⟩
  · have hearlier := htidy.bounded earlier (List.mem_of_find?_eq_some hfind)
    grind
  · grind

/-- Merging several factors keeps the shape. -/
theorem pushAll_tidy (unit result : CompoundUnit α) (factors : List (UnitFactor α))
    (hunit : Tidy unit.factors) (hknown : ∀ factor ∈ factors, Known factor)
    (h : unit.pushAll factors = .ok result) : Tidy result.factors :=
  Outcome.foldlM_keeps (fun unit => Tidy unit.factors) push factors
    (fun unit factor result hmem hunit hpush =>
      push_tidy unit result factor hunit (hknown factor hmem) hpush) unit result hunit h

end Merging

section Dimensions

/-- The dimension of a product, exponent by exponent and without a check. -/
def exactDimension : List (UnitFactor α) → Dimension
  | [] => Dimension.one
  | factor :: rest => Dimension.zipWith (· + ·) factor.exponents (exactDimension rest)

/-- One step of the dimension of a product. -/
def multiplyDimension (product : Dimension) (factor : UnitFactor α) :
    Except DimensionOverflow Dimension := do
  product.mul (← factor.dimension.pow factor.power)

theorem multiplyDimension_eq_ok (product result : Dimension) (factor : UnitFactor α) :
    multiplyDimension product factor = .ok result ↔
      factor.exponents.Fits ∧ result.Fits ∧
        result = Dimension.zipWith (· + ·) product factor.exponents := by
  rw [multiplyDimension, Outcome.bind_eq_ok]
  constructor
  · rintro ⟨raised, hpow, hmul⟩
    rw [Dimension.pow_eq_ok_iff] at hpow
    rw [Dimension.mul_eq_ok_iff] at hmul
    rcases hpow with ⟨rfl, hfits⟩
    rcases hmul with ⟨rfl, hresult⟩
    exact ⟨hfits, hresult, rfl⟩
  · rintro ⟨hfits, hresult, rfl⟩
    exact ⟨factor.exponents, (Dimension.pow_eq_ok_iff _ _ _).mpr ⟨rfl, hfits⟩,
      (Dimension.mul_eq_ok_iff _ _ _).mpr ⟨rfl, hresult⟩⟩

theorem dimension_eq_ok (unit : CompoundUnit α) (d : Dimension) :
    unit.dimension = .ok d ↔ unit.factors.foldlM multiplyDimension Dimension.one = .ok d := by
  have hdimension : unit.dimension =
      liftDimension (unit.factors.foldlM multiplyDimension Dimension.one) := rfl
  rw [hdimension]
  cases unit.factors.foldlM multiplyDimension Dimension.one with
  | ok e => simp only [liftDimension, Except.ok.injEq]
  | error overflow => simp only [liftDimension, reduceCtorEq]

theorem zipWith_add_assoc (a b c : Dimension) :
    Dimension.zipWith (· + ·) (Dimension.zipWith (· + ·) a b) c =
      Dimension.zipWith (· + ·) a (Dimension.zipWith (· + ·) b c) := by
  simp only [Dimension.zipWith, Int.add_assoc]

theorem foldlM_multiplyDimension (factors : List (UnitFactor α)) :
    ∀ product d, factors.foldlM multiplyDimension product = .ok d →
      d = Dimension.zipWith (· + ·) product (exactDimension factors) := by
  induction factors with
  | nil =>
      intro product d h
      rw [List.foldlM_nil, Outcome.pure_eq_ok] at h
      rw [← h, exactDimension, Dimension.zipWith_add_one]
  | cons factor rest ih =>
      intro product d h
      rw [List.foldlM_cons, Outcome.bind_eq_ok] at h
      rcases h with ⟨next, hnext, hrest⟩
      rw [multiplyDimension_eq_ok] at hnext
      rw [ih next d hrest, hnext.2.2, exactDimension, zipWith_add_assoc]

/-- A dimension that passes every check on the way is the exact one. -/
theorem eq_exactDimension (unit : CompoundUnit α) (d : Dimension) (h : unit.dimension = .ok d) :
    d = exactDimension unit.factors := by
  rw [dimension_eq_ok] at h
  rw [foldlM_multiplyDimension _ _ _ h]
  simp only [Dimension.zipWith, Dimension.one, Int.zero_add]

/-- The order of the factors does not matter for the exact dimension. -/
theorem exactDimension_perm (first second : List (UnitFactor α)) (h : first.Perm second) :
    exactDimension first = exactDimension second := by
  induction h with
  | nil => rfl
  | cons factor _ ih => rw [exactDimension, exactDimension, ih]
  | swap a b rest =>
      simp only [exactDimension, Dimension.zipWith, Dimension.mk.injEq]
      refine ⟨?_, ?_, ?_, ?_, ?_, ?_, ?_⟩ <;> omega
  | trans _ _ ih₁ ih₂ => exact ih₁.trans ih₂

/-- The same factors have the same dimension, if both have one. -/
theorem dimension_of_perm (unit found : CompoundUnit α) (hunit : ∃ d, unit.dimension = .ok d)
    (hfound : ∃ d, found.dimension = .ok d) (hperm : found.factors.Perm unit.factors) :
    found.dimension = unit.dimension := by
  rcases hunit with ⟨d, hd⟩
  rcases hfound with ⟨e, he⟩
  rw [hd, he, eq_exactDimension unit d hd, eq_exactDimension found e he,
    exactDimension_perm _ _ hperm]

@[simp]
theorem check_eq_ok (unit result : CompoundUnit α) :
    unit.check = .ok result ↔ result = unit ∧ ∃ d, unit.dimension = .ok d := by
  rw [check, Outcome.bind_eq_ok]
  constructor
  · rintro ⟨d, hd, h⟩
    rw [Outcome.pure_eq_ok] at h
    exact ⟨h.symm, d, hd⟩
  · rintro ⟨rfl, d, hd⟩
    exact ⟨d, hd, (Outcome.pure_eq_ok _ _).mpr rfl⟩

/-- A factor with the power zero does not change the dimension of a product. -/
theorem foldlM_filter_nonzero (factors : List (UnitFactor α)) :
    ∀ product : Dimension, product.Fits →
      (factors.filter fun factor => factor.power ≠ 0).foldlM multiplyDimension product =
        factors.foldlM multiplyDimension product := by
  induction factors with
  | nil => intro _ _; rfl
  | cons factor rest ih =>
      intro product hproduct
      by_cases hpower : factor.power = 0
      · -- Such a factor adds nothing, and it passes the check since the product does.
        have hstep : multiplyDimension product factor = .ok product := by
          rw [multiplyDimension_eq_ok, UnitFactor.exponents, hpower, Dimension.map_mul_zero,
            Dimension.zipWith_add_one]
          exact ⟨Dimension.fits_one, hproduct, rfl⟩
        rw [List.filter_cons_of_neg (by simp [hpower]), List.foldlM_cons, hstep, ih product hproduct]
        rfl
      · rw [List.filter_cons_of_pos (by simp [hpower]), List.foldlM_cons, List.foldlM_cons]
        cases hstep : multiplyDimension product factor with
        | error overflow => rfl
        | ok next =>
            rw [multiplyDimension_eq_ok] at hstep
            exact ih next hstep.2.1

end Dimensions

/-- A unit as it comes out of reading and the operations: a tidy product with a
    dimension in range. -/
structure WellFormed [Scalar α] (unit : CompoundUnit α) : Prop where
  tidy : Tidy unit.factors
  measurable : ∃ d, unit.dimension = .ok d

variable [Scalar α]

theorem wellFormed_of_check (unit result : CompoundUnit α) (htidy : Tidy unit.factors)
    (h : unit.check = .ok result) : WellFormed result := by
  rw [check_eq_ok] at h
  rcases h with ⟨rfl, hdimension⟩
  exact ⟨htidy, hdimension⟩

end CompoundUnit

end Metrology
