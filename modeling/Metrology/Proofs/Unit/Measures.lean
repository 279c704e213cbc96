import Mathlib.Algebra.Group.InjSurj
import Mathlib.Algebra.Group.Prod
import Mathlib.Algebra.Module.Basic
import Mathlib.Algebra.Ring.Int.Defs
import Mathlib.Tactic.Module
import Metrology.Proofs.Scalar.Folding

/-!
# Dimensions of products, quotients and powers

The dimensions of units are an abelian group, in which a product of units has the
sum of their dimensions. Operations check on the way that everything stays in
range, and refuse the result otherwise; there is no other way in which a product,
a quotient or an integer power can fail. So an operation either refuses the powers
or has the dimension that the group says.

A real power may fail in another way, where a power becomes fractional. It does
so for all units with the same powers, so that the exponent of a derivative, which
is less by one, is fine if the exponent itself is and if taking one away from it
takes one power away from every power.

## Main definitions

* `CompoundUnit.Measures`: A unit in order, with its dimension.
* `UnitError.IsOverflow`: Powers that are out of range.
* `CompoundUnit.realPower?`: The dimension of a real power, without a check.

## Theorems

* `CompoundUnit.Measures.mul`, `CompoundUnit.Measures.div`,
  `CompoundUnit.Measures.powInt`, `CompoundUnit.Measures.powReal`,
  `CompoundUnit.Measures.powReal_of_eq`: The operations.
* `CompoundUnit.realPower?_sub_one`, `CompoundUnit.realPower?_multiple`,
  `CompoundUnit.two_smul_of_half`, `CompoundUnit.realPower?_half_zero`: Dimensions
  of related powers.
-/

namespace Metrology

namespace Dimension

instance : Add Dimension := ⟨zipWith (· + ·)⟩

instance : Sub Dimension := ⟨zipWith (· - ·)⟩

instance : Zero Dimension := ⟨one⟩

instance : Neg Dimension := ⟨map (-·)⟩

instance : SMul ℕ Dimension := ⟨fun n => map (· * n)⟩

instance : SMul ℤ Dimension := ⟨fun n => map (· * n)⟩

/-- The exponents as a tuple of integers. -/
def tuple (d : Dimension) : ℤ × ℤ × ℤ × ℤ × ℤ × ℤ × ℤ :=
  (d.mass, d.length, d.time, d.current, d.temperature, d.amount, d.luminosity)

theorem tuple_injective : Function.Injective tuple := by
  rintro ⟨⟩ ⟨⟩ h
  simpa [tuple] using h

theorem tuple_nsmul (d : Dimension) (n : ℕ) : tuple (n • d) = n • tuple d := by
  simp only [tuple, Prod.smul_mk, nsmul_eq_mul]
  simp only [HSMul.hSMul, SMul.smul, map, zipWith, Int.mul_comm]

theorem tuple_zsmul (d : Dimension) (n : ℤ) : tuple (n • d) = n • tuple d := by
  simp only [tuple, Prod.smul_mk, smul_eq_mul]
  simp only [HSMul.hSMul, SMul.smul, map, zipWith, Int.mul_comm]

/-- The dimensions of products, quotients and powers make an abelian group. -/
instance : AddCommGroup Dimension :=
  tuple_injective.addCommGroup tuple rfl (fun _ _ => rfl) (fun _ => rfl) (fun _ _ => rfl)
    tuple_nsmul tuple_zsmul

/-- Dimensions have no torsion. -/
theorem eq_zero_of_two_smul (d : Dimension) (h : (2 : ℤ) • d = 0) : d = 0 := by
  have htuple : (2 : ℤ) • tuple d = tuple 0 := by rw [← tuple_zsmul, h]
  have hzero : tuple 0 = (0, 0, 0, 0, 0, 0, 0) := rfl
  refine tuple_injective ?_
  rw [hzero] at htuple ⊢
  simpa [tuple] using htuple

end Dimension

/-- A failure because of powers that are out of range. -/
def UnitError.IsOverflow {α : Type} (e : UnitError α) : Prop :=
  ∃ overflow, e = .powerOverflow overflow

namespace CompoundUnit

variable {α : Type}

section Merging

@[simp]
theorem exactDimension_cons (factor : UnitFactor α) (rest : List (UnitFactor α)) :
    exactDimension (factor :: rest) = factor.power • factor.dimension + exactDimension rest := rfl

@[simp]
theorem exactDimension_append (first second : List (UnitFactor α)) :
    exactDimension (first ++ second) = exactDimension first + exactDimension second := by
  induction first with
  | nil => exact (zero_add _).symm
  | cons factor rest ih =>
      rw [List.cons_append, exactDimension_cons, exactDimension_cons, ih, add_assoc]

/-- A power of zero does not count. -/
theorem exactDimension_ofFactors (factors : List (UnitFactor α)) :
    exactDimension (ofFactors factors).factors = exactDimension factors := by
  induction factors with
  | nil => rfl
  | cons factor rest ih =>
      rw [ofFactors] at ih ⊢
      simp only at ih ⊢
      by_cases hpower : factor.power = 0
      · rw [List.filter_cons_of_neg (by simp [hpower]), ih, exactDimension_cons, hpower, zero_smul,
          zero_add]
      · rw [List.filter_cons_of_pos (by simp [hpower]), exactDimension_cons, exactDimension_cons, ih]

theorem exactDimension_addPower (symbol : String) (power : Int) (factors : List (UnitFactor α))
    (earlier : UnitFactor α)
    (h : factors.find? (fun factor => factor.symbol = symbol) = some earlier) :
    exactDimension (addPower symbol power factors) =
      exactDimension factors + power • earlier.dimension := by
  induction factors with
  | nil => cases h
  | cons factor rest ih =>
      rw [addPower]
      by_cases hsame : factor.symbol = symbol
      · rw [List.find?_cons_of_pos (by simp [hsame]), Option.some.injEq] at h
        rw [if_pos hsame, exactDimension_cons, exactDimension_cons, ← h]
        simp only
        module
      · rw [List.find?_cons_of_neg (by simp [hsame])] at h
        rw [if_neg hsame, exactDimension_cons, exactDimension_cons, ih h, add_assoc]

theorem exactDimension_neg (factors : List (UnitFactor α)) :
    exactDimension (factors.map fun factor => { factor with power := -factor.power }) =
      -exactDimension factors := by
  induction factors with
  | nil => exact neg_zero.symm
  | cons factor rest ih =>
      rw [List.map_cons, exactDimension_cons, exactDimension_cons, ih, neg_smul, neg_add]

theorem exactDimension_times (n : Int) (factors : List (UnitFactor α)) :
    exactDimension (factors.map (UnitFactor.times n)) = n • exactDimension factors := by
  induction factors with
  | nil => exact (smul_zero n).symm
  | cons factor rest ih =>
      rw [List.map_cons, exactDimension_cons, exactDimension_cons, ih, smul_add, smul_smul,
        UnitFactor.power_times, mul_comm]
      rfl

theorem push_eq_error (unit : CompoundUnit α) (factor : UnitFactor α) (e : UnitError α)
    (h : unit.push factor = .error e) : e.IsOverflow := by
  unfold push at h
  split at h
  · split at h
    · cases h
    · exact ⟨_, (Except.error.inj h).symm⟩
  · split at h
    · cases h
    · exact ⟨_, (Except.error.inj h).symm⟩

theorem check_eq_error (unit : CompoundUnit α) (e : UnitError α) (h : unit.check = .error e) :
    e.IsOverflow := by
  have hdimension : unit.dimension =
      liftDimension (unit.factors.foldlM multiplyDimension Dimension.one) := rfl
  rw [check, hdimension] at h
  cases hfold : unit.factors.foldlM multiplyDimension Dimension.one with
  | ok d =>
      rw [hfold] at h
      cases h
  | error overflow =>
      rw [hfold] at h
      exact ⟨_, (Except.error.inj h).symm⟩

variable [Scalar α]

/-- Merging a factor adds what it contributes. -/
theorem push_exact (unit result : CompoundUnit α) (factor : UnitFactor α)
    (hunit : Tidy unit.factors) (hknown : Known factor) (h : unit.push factor = .ok result) :
    exactDimension result.factors =
      exactDimension unit.factors + factor.power • factor.dimension := by
  rcases push_eq_ok unit result factor h with ⟨earlier, hfind, -, rfl⟩ | ⟨-, -, rfl⟩
  · -- Factors with the same symbol have the same dimension.
    have hmem := List.mem_of_find?_eq_some hfind
    have hsymbol : earlier.symbol = factor.symbol := by
      simpa using List.find?_some hfind
    have hmeaning := hunit.known earlier hmem
    rw [Known, hsymbol, hknown, Option.some.injEq, Prod.mk.injEq] at hmeaning
    rw [exactDimension_ofFactors, exactDimension_addPower _ _ _ earlier hfind, hmeaning.1]
  · rw [exactDimension_ofFactors, exactDimension_append, exactDimension_cons]
    exact congrArg _ (add_zero _)

/-- Merging factors fails only with powers out of range, and it adds up what they
    contribute. -/
theorem pushAll_exact (factors : List (UnitFactor α)) (hknown : ∀ factor ∈ factors, Known factor) :
    ∀ unit : CompoundUnit α, Tidy unit.factors →
      Outcome.Yields (fun result => Tidy result.factors ∧ exactDimension result.factors =
        exactDimension unit.factors + exactDimension factors) UnitError.IsOverflow
          (unit.pushAll factors) := by
  induction factors with
  | nil => exact fun unit hunit => ⟨hunit, (add_zero _).symm⟩
  | cons factor rest ih =>
      intro unit hunit
      have hfactor := hknown factor List.mem_cons_self
      rw [pushAll, List.foldlM_cons]
      refine Outcome.Yields.bind _ _ _ (Outcome.Yields.self _ (push_eq_error unit factor))
        (fun next hnext => ?_)
      refine (ih (fun f hf => hknown f (List.mem_cons_of_mem _ hf)) next
        (push_tidy unit next factor hunit hfactor hnext)).weaken _ _ _ (fun result h => ?_)
        (fun _ h => h)
      rw [h.2, push_exact unit next factor hunit hfactor hnext, exactDimension_cons, add_assoc]
      exact ⟨h.1, rfl⟩

/-- A unit in order, with its dimension. -/
structure Measures (unit : CompoundUnit α) (d : Dimension) : Prop where
  tidy : Tidy unit.factors
  dimension_eq : unit.dimension = .ok d

theorem Measures.exact (unit : CompoundUnit α) (d : Dimension) (h : unit.Measures d) :
    exactDimension unit.factors = d :=
  (eq_exactDimension unit d h.dimension_eq).symm

theorem WellFormed.measures (unit : CompoundUnit α) (h : unit.WellFormed) :
    ∃ d, unit.Measures d := by
  rcases h.measurable with ⟨d, hd⟩
  exact ⟨d, h.tidy, hd⟩

theorem Measures.unique (unit : CompoundUnit α) (d e : Dimension) (hd : unit.Measures d)
    (he : unit.Measures e) : d = e := by
  rw [← hd.exact, he.exact]

theorem measures_none : (none : CompoundUnit α).Measures 0 := ⟨tidy_nil, rfl⟩

/-- What passes the check has the dimension that its factors add up to. -/
theorem check_measures (unit : CompoundUnit α) (htidy : Tidy unit.factors) :
    Outcome.Yields (fun result => result.Measures (exactDimension unit.factors))
      UnitError.IsOverflow unit.check := by
  refine Outcome.Yields.of_cases _ (fun result h => ?_) (check_eq_error unit)
  rw [check_eq_ok] at h
  rcases h with ⟨rfl, d, hd⟩
  exact ⟨htidy, by rw [hd, eq_exactDimension _ d hd]⟩

theorem pushAll_measures (unit : CompoundUnit α) (factors : List (UnitFactor α))
    (htidy : Tidy unit.factors) (hknown : ∀ factor ∈ factors, Known factor) (d : Dimension)
    (hd : exactDimension unit.factors + exactDimension factors = d) :
    Outcome.Yields (fun result => result.Measures d) UnitError.IsOverflow
      (unit.pushAll factors >>= check) := by
  refine Outcome.Yields.bind _ _ _ (pushAll_exact factors hknown unit htidy) (fun product h => ?_)
  rw [← hd, ← h.2]
  exact check_measures product h.1

namespace Measures

variable {unit other : CompoundUnit α} {d e : Dimension}

/-- A product has the sum of the dimensions. -/
theorem mul (hunit : unit.Measures d) (hother : other.Measures e) :
    Outcome.Yields (fun result => result.Measures (d + e)) UnitError.IsOverflow
      (unit.mul other) := by
  rw [CompoundUnit.mul]
  exact pushAll_measures unit other.factors hunit.tidy hother.tidy.known _
    (by rw [hunit.exact, hother.exact])

/-- A quotient has the difference of the dimensions. -/
theorem div (hunit : unit.Measures d) (hother : other.Measures e) :
    Outcome.Yields (fun result => result.Measures (d - e)) UnitError.IsOverflow
      (unit.div other) := by
  rw [CompoundUnit.div]
  refine pushAll_measures unit _ hunit.tidy (fun factor hfactor => ?_) _
    (by rw [exactDimension_neg, hunit.exact, hother.exact, sub_eq_add_neg])
  rcases List.mem_map.mp hfactor with ⟨original, hmem, rfl⟩
  exact hother.tidy.known original hmem

/-- An integer power has a multiple of the dimension. -/
theorem powInt (hunit : unit.Measures d) (n : Int) :
    Outcome.Yields (fun result => result.Measures (n • d)) UnitError.IsOverflow
      (unit.powInt n) := by
  refine Outcome.Yields.of_cases _ (fun result h => ?_) (fun err h => ?_)
  · rw [CompoundUnit.powInt, Outcome.bind_eq_ok] at h
    rcases h with ⟨product, hproduct, hcheck⟩
    have hpush := foldlM_multiplyPower n unit.factors none product hproduct
    refine (pushAll_measures none (unit.factors.map (UnitFactor.times n)) tidy_nil
      (fun factor hfactor => ?_) (n • d) ?_).value_of_ok _ _
        ((Outcome.bind_eq_ok _ _ _).mpr ⟨product, hpush, hcheck⟩)
    · rcases List.mem_map.mp hfactor with ⟨original, hmem, rfl⟩
      exact hunit.tidy.known original hmem
    · rw [exactDimension_times, hunit.exact]
      exact zero_add _
  · rw [CompoundUnit.powInt, Outcome.bind_eq_error] at h
    rcases h with h | ⟨product, -, h⟩
    · rcases Outcome.foldlM_eq_error _ _ _ _ h with ⟨product, factor, -, hstep⟩
      rw [Outcome.bind_eq_error] at hstep
      rcases hstep with hstep | ⟨raised, -, hstep⟩
      · rw [multiplyPower] at hstep
        split at hstep
        · cases hstep
        · exact ⟨_, (Except.error.inj hstep).symm⟩
      · exact push_eq_error _ _ _ hstep
    · exact check_eq_error _ _ h

end Measures

end Merging

section RealPowers

/-- The dimension that factors add up to when their powers are scaled; none if one of
    them cannot be. -/
def scaledSum? (scaled : Int → Option Int) : List (UnitFactor α) → Option Dimension
  | [] => some 0
  | factor :: rest => do
    let power ← scaled factor.power
    return power • factor.dimension + (← scaledSum? scaled rest)

/-- The dimension whose exponents are scaled; none if one of them cannot be. -/
def scaledDimension? (scaled : Int → Option Int) (d : Dimension) : Option Dimension :=
  (d.exponents.mapM scaled).bind dimensionOf?

/-- The dimension of a real power without a check, given what becomes of integers: that
    of the factors, or else of the dimension as a whole. -/
def realPower? (scaled : Int → Option Int) (unit : CompoundUnit α) (d : Dimension) :
    Option Dimension :=
  scaledSum? scaled unit.factors <|> scaledDimension? scaled d

/-- The powers in a unit and in its dimension. -/
def allPowers (unit : CompoundUnit α) (d : Dimension) : List Int :=
  unit.factors.map (·.power) ++ d.exponents

theorem power_mem_allPowers (unit : CompoundUnit α) (d : Dimension) (factor : UnitFactor α)
    (h : factor ∈ unit.factors) : factor.power ∈ unit.allPowers d :=
  List.mem_append_left _ (List.mem_map.mpr ⟨factor, h, rfl⟩)

theorem exponent_mem_allPowers (unit : CompoundUnit α) (d : Dimension) (power : Int)
    (h : power ∈ d.exponents) : power ∈ unit.allPowers d :=
  List.mem_append_right _ h

section Relations

variable (unit : CompoundUnit α) (d : Dimension) (scaled scaled' : Int → Option Int)

theorem scaledSum?_sub (factors : List (UnitFactor α))
    (h : ∀ factor ∈ factors, scaled' factor.power = (scaled factor.power).map (· - factor.power)) :
    scaledSum? scaled' factors = (scaledSum? scaled factors).map (· - exactDimension factors) := by
  induction factors with
  | nil => exact congrArg some (sub_zero 0).symm
  | cons factor rest ih =>
      rw [scaledSum?, scaledSum?, h factor List.mem_cons_self,
        ih (fun f hf => h f (List.mem_cons_of_mem _ hf)), exactDimension_cons]
      cases scaled factor.power with
      | none => rfl
      | some power =>
          cases scaledSum? scaled rest with
          | none => rfl
          | some sum =>
              refine congrArg some ?_
              module

theorem scaledDimension?_sub
    (h : ∀ power ∈ d.exponents, scaled' power = (scaled power).map (· - power)) :
    scaledDimension? scaled' d = (scaledDimension? scaled d).map (· - d) := by
  simp only [Dimension.exponents, List.forall_mem_cons, List.not_mem_nil, false_implies,
    implies_true, and_true] at h
  rcases h with ⟨h₁, h₂, h₃, h₄, h₅, h₆, h₇⟩
  simp only [scaledDimension?, Dimension.exponents, List.mapM_cons, List.mapM_nil, h₁, h₂, h₃, h₄,
    h₅, h₆, h₇]
  cases scaled d.mass <;> cases scaled d.length <;> cases scaled d.time <;>
    cases scaled d.current <;> cases scaled d.temperature <;> cases scaled d.amount <;>
    cases scaled d.luminosity <;> rfl

/-- An exponent less by one takes the dimension away once. -/
theorem realPower?_sub_one (hunit : exactDimension unit.factors = d)
    (h : ∀ power ∈ unit.allPowers d, scaled' power = (scaled power).map (· - power)) :
    realPower? scaled' unit d = (realPower? scaled unit d).map (· - d) := by
  rw [realPower?, realPower?, scaledSum?_sub scaled scaled' unit.factors (fun factor hmem =>
    h _ (unit.power_mem_allPowers d factor hmem)), hunit, scaledDimension?_sub d scaled scaled'
    (fun power hmem => h _ (unit.exponent_mem_allPowers d power hmem))]
  cases scaledSum? scaled unit.factors <;> rfl

theorem scaledSum?_multiple (n : Int) (factors : List (UnitFactor α))
    (h : ∀ factor ∈ factors, scaled factor.power = some (factor.power * n)) :
    scaledSum? scaled factors = some (n • exactDimension factors) := by
  induction factors with
  | nil => exact congrArg some (smul_zero n).symm
  | cons factor rest ih =>
      rw [scaledSum?, h factor List.mem_cons_self,
        ih (fun f hf => h f (List.mem_cons_of_mem _ hf)), exactDimension_cons, smul_add,
        smul_smul, mul_comm n]
      rfl

/-- An integer exponent gives the multiple of the dimension. -/
theorem realPower?_multiple (n : Int) (hunit : exactDimension unit.factors = d)
    (h : ∀ power ∈ unit.allPowers d, scaled power = some (power * n)) :
    realPower? scaled unit d = some (n • d) := by
  rw [realPower?, scaledSum?_multiple scaled n unit.factors (fun factor hmem =>
    h _ (unit.power_mem_allPowers d factor hmem)), hunit]
  rfl

theorem two_smul_scaledDimension?
    (h : ∀ power ∈ d.exponents, ∀ half, scaled power = some half → power = half * 2)
    (e : Dimension) (he : scaledDimension? scaled d = some e) : (2 : ℤ) • e = d := by
  simp only [Dimension.exponents, List.forall_mem_cons, List.not_mem_nil, false_implies,
    implies_true, and_true] at h
  rcases h with ⟨h₁, h₂, h₃, h₄, h₅, h₆, h₇⟩
  simp only [scaledDimension?, Dimension.exponents, List.mapM_cons, List.mapM_nil,
    Option.bind_eq_bind, Option.bind_eq_some_iff, Option.pure_def, Option.some.injEq] at he
  rcases he with ⟨_, ⟨mass, hmass, _, ⟨length, hlength, _, ⟨time, htime, _, ⟨current, hcurrent, _,
    ⟨temperature, htemperature, _, ⟨amount, hamount, _, ⟨luminosity, hluminosity, _, rfl, rfl⟩,
    rfl⟩, rfl⟩, rfl⟩, rfl⟩, rfl⟩, rfl⟩, he⟩
  rw [dimensionOf?, Option.some.injEq] at he
  refine Dimension.tuple_injective ?_
  rw [← he, Dimension.tuple_zsmul]
  simp only [Dimension.tuple, Prod.smul_mk, smul_eq_mul, h₁ mass hmass, h₂ length hlength,
    h₃ time htime, h₄ current hcurrent, h₅ temperature htemperature, h₆ amount hamount,
    h₇ luminosity hluminosity, mul_comm]

theorem two_smul_scaledSum? (factors : List (UnitFactor α))
    (h : ∀ factor ∈ factors, ∀ half, scaled factor.power = some half → factor.power = half * 2) :
    ∀ sum, scaledSum? scaled factors = some sum → (2 : ℤ) • sum = exactDimension factors := by
  induction factors with
  | nil =>
      intro sum hsum
      rw [← Option.some.inj hsum]
      exact smul_zero 2
  | cons factor rest ih =>
      intro sum hsum
      simp only [scaledSum?, Option.bind_eq_bind, Option.bind_eq_some_iff] at hsum
      rcases hsum with ⟨half, hhalf, tail, htail, hsum⟩
      rw [← Option.some.inj hsum, smul_add,
        ih (fun f hf => h f (List.mem_cons_of_mem _ hf)) tail htail, exactDimension_cons,
        h factor List.mem_cons_self half hhalf, smul_smul, mul_comm half]

/-- If only even powers can be halved, twice a half is the whole. -/
theorem two_smul_of_half (hunit : exactDimension unit.factors = d)
    (h : ∀ power ∈ unit.allPowers d, ∀ half, scaled power = some half → power = half * 2)
    (e : Dimension) (he : realPower? scaled unit d = some e) : (2 : ℤ) • e = d := by
  rw [realPower?] at he
  cases hfactors : scaledSum? scaled unit.factors with
  | some sum =>
      rw [hfactors] at he
      rw [← Option.some.inj he, ← hunit]
      exact two_smul_scaledSum? scaled unit.factors
        (fun factor hmem => h _ (unit.power_mem_allPowers d factor hmem)) sum hfactors
  | none =>
      rw [hfactors] at he
      exact two_smul_scaledDimension? d scaled
        (fun power hmem => h power (unit.exponent_mem_allPowers d power hmem)) e he

/-- Half of no dimension is no dimension. -/
theorem realPower?_half_zero (hunit : exactDimension unit.factors = 0) (hzero : scaled 0 = some 0)
    (h : ∀ power ∈ unit.allPowers 0, ∀ half, scaled power = some half → power = half * 2) :
    realPower? scaled unit 0 = some 0 := by
  cases he : realPower? scaled unit 0 with
  | some e =>
      rw [Dimension.eq_zero_of_two_smul e (two_smul_of_half unit 0 scaled hunit h e he)]
  | none =>
      -- The exponents of no dimension can be halved, whatever the factors are.
      rw [realPower?, Option.orElse_eq_none] at he
      have hdimension : scaledDimension? scaled 0 = some 0 := by
        have hexponents : (0 : Dimension).exponents = [0, 0, 0, 0, 0, 0, 0] := rfl
        rw [scaledDimension?, hexponents]
        simp only [List.mapM_cons, List.mapM_nil, hzero]
        rfl
      rw [hdimension] at he
      cases he.2

end Relations

variable [Scalar α]

/-- Raising factors adds up what the scaled powers contribute. -/
theorem powFactors?_exact (exponent : α) (factors : List (UnitFactor α))
    (hknown : ∀ factor ∈ factors, Known factor) :
    ∀ product : CompoundUnit α, Tidy product.factors →
      Outcome.Yields (fun result? =>
          (result? = Option.none ∧ scaledSum? (scaledPower? · exponent) factors = Option.none) ∨
          ∃ result sum, result? = some result ∧ Tidy result.factors ∧
            scaledSum? (scaledPower? · exponent) factors = some sum ∧
            exactDimension result.factors = exactDimension product.factors + sum)
        UnitError.IsOverflow (powFactors? exponent product factors) := by
  induction factors with
  | nil => exact fun product hproduct => Or.inr ⟨product, 0, rfl, hproduct, rfl, (add_zero _).symm⟩
  | cons factor rest ih =>
      intro product hproduct
      rw [powFactors?, scaledSum?]
      -- Raising ends where a power cannot be scaled, or fails where a factor cannot be merged.
      cases hpower : scaledPower? factor.power exponent with
      | none => exact Or.inl ⟨rfl, rfl⟩
      | some power =>
          have hfactor : Known { factor with power } := hknown factor List.mem_cons_self
          refine Outcome.Yields.bind _ _ _ (Outcome.Yields.self _ (push_eq_error product _))
            (fun next hnext => ?_)
          refine (ih (fun f hf => hknown f (List.mem_cons_of_mem _ hf)) next
            (push_tidy product next _ hproduct hfactor hnext)).weaken _ _ _ (fun result? h => ?_)
            (fun _ h => h)
          rcases h with ⟨hnone, hsum⟩ | ⟨result, sum, hresult, htidy, hsum, hexact⟩
          · exact Or.inl ⟨hnone, by rw [hsum]; rfl⟩
          · refine Or.inr ⟨result, power • factor.dimension + sum, hresult, htidy,
              by rw [hsum]; rfl, ?_⟩
            rw [hexact, push_exact product next _ hproduct hfactor hnext, add_assoc]

/-- Scaling the exponents of a dimension. -/
theorem scaledExponents?_eq (overflow : UnitError α) (exponent : α) (powers : List Int) :
    Outcome.Yields (fun scaled? => powers.mapM (scaledPower? · exponent) = scaled?)
      (fun e => e = overflow) (scaledExponents? overflow exponent powers) := by
  induction powers with
  | nil => rfl
  | cons power rest ih =>
      rw [scaledExponents?, List.mapM_cons]
      cases scaledPower? power exponent with
      | none => rfl
      | some scaled =>
          simp only
          split
          · refine Outcome.Yields.bind _ _ _ ih (fun rest? hrest => ?_)
            rw [hrest]
            cases rest? <;> rfl
          · rfl

/-- The powers in a unit are small. -/
theorem Measures.bounded (unit : CompoundUnit α) (d : Dimension) (hunit : unit.Measures d) :
    ∀ power ∈ unit.allPowers d, -128 ≤ power ∧ power ≤ 127 := by
  have hfits : d.Fits := by
    refine Outcome.foldlM_keeps Dimension.Fits multiplyDimension unit.factors ?_ _ d
      Dimension.fits_one ((dimension_eq_ok unit d).mp hunit.dimension_eq)
    exact fun product factor next _ _ hnext => ((multiplyDimension_eq_ok _ _ _).mp hnext).2.1
  intro power hmem
  rcases List.mem_append.mp hmem with hmem | hmem
  · rcases List.mem_map.mp hmem with ⟨factor, hfactor, rfl⟩
    exact hunit.tidy.bounded factor hfactor
  · have hrange := hfits power hmem
    rw [Dimension.inRange, Bool.and_eq_true, decide_eq_true_eq, decide_eq_true_eq] at hrange
    exact hrange

/-- A real power has the scaled dimension, unless it is fractional or out of range. -/
theorem Measures.powReal [UnitScalar α] (unit : CompoundUnit α) (d : Dimension)
    (hunit : unit.Measures d) (exponent : α) :
    Outcome.Yields
      (fun result => ∃ e, realPower? (scaledPower? · exponent) unit d = some e ∧ result.Measures e)
      (fun e => e.IsOverflow ∨ realPower? (scaledPower? · exponent) unit d = Option.none)
      (unit.powReal exponent) := by
  rw [CompoundUnit.powReal]
  refine Outcome.Yields.bind _ _ _ ((powFactors?_exact exponent unit.factors hunit.tidy.known none
    tidy_nil).weaken _ _ _ (fun _ h => h) (fun _ h => Or.inl h)) ?_
  rintro result? (⟨rfl, hsum⟩ | ⟨product, sum, rfl, htidy, hsum, hexact⟩)
  · -- Some factor cannot be raised, so the dimension is raised as a whole.
    have hreal : realPower? (scaledPower? · exponent) unit d =
        scaledDimension? (scaledPower? · exponent) d := by
      rw [realPower?, hsum]
      rfl
    rw [hreal, hunit.dimension_eq]
    refine Outcome.Yields.bind (scaledExponents? (.powerOverflow (.real unit exponent)) exponent
      d.exponents) _ _ (Outcome.Yields.self _ (fun e he => ?_)) (fun scaled? hscaled => ?_)
    · have hoverflow := (scaledExponents?_eq _ exponent d.exponents).failure_of_error _ e he
      exact Or.inl ⟨_, hoverflow⟩
    · have hpowers := (scaledExponents?_eq _ exponent d.exponents).value_of_ok _ _ hscaled
      rw [scaledDimension?, hpowers]
      cases hbind : scaled?.bind dimensionOf? with
      | none => exact Or.inr rfl
      | some e =>
          refine ⟨e, rfl, ?_⟩
          rw [Option.bind_eq_some_iff] at hbind
          rcases hbind with ⟨scaled, rfl, he⟩
          have hfits : e.Fits := by
            rw [Dimension.Fits, exponents_of_dimensionOf? scaled e he]
            exact inRange_of_mem_scaledExponents? _ exponent _ scaled hscaled
          exact ⟨si_tidy e hfits, dimension_si e hfits⟩
  · refine (check_measures product htidy).weaken _ _ _ (fun result h => ⟨sum, ?_, ?_⟩)
      (fun _ h => Or.inl h)
    · rw [realPower?, hsum]
      rfl
    · rw [hexact] at h
      exact (zero_add sum) ▸ h

/-- A real power that has a dimension fails only with powers out of range. -/
theorem Measures.powReal_of_eq [UnitScalar α] (unit : CompoundUnit α) (d e : Dimension)
    (hunit : unit.Measures d) (exponent : α)
    (he : realPower? (scaledPower? · exponent) unit d = some e) :
    Outcome.Yields (fun result => result.Measures e) UnitError.IsOverflow
      (unit.powReal exponent) := by
  refine (hunit.powReal unit d exponent).weaken _ _ _ (fun result h => ?_) (fun err h => ?_)
  · rcases h with ⟨found, hfound, hresult⟩
    rw [he, Option.some.injEq] at hfound
    exact hfound ▸ hresult
  · rcases h with h | h
    · exact h
    · rw [he] at h
      cases h

end RealPowers

end CompoundUnit

end Metrology
