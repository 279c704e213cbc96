import Mathlib.Algebra.BigOperators.Group.List.Basic
import Metrology.Proofs.Unit.Measures
import Metrology.Proofs.Unit.ReadBack

/-!
# Powers of symbols

What merging does to a product, said without looking into its list of factors. A tidy
product is known up to the order of its factors by the power that each symbol has in it,
and merging adds these powers. Products, quotients and integer powers are made by merging
factors with the same powers, turned powers and multiplied powers.

Merging one factor after the other checks each sum of powers on its own, since a symbol
occurs only once in what is merged. So whether it succeeds can be told from the powers as
well, and not from the order.

## Main definitions

* `CompoundUnit.powerOf`: The power of a symbol in a product.

## Theorems

* `CompoundUnit.push_powerOf`, `CompoundUnit.pushAll_powerOf`: Merging adds powers.
* `CompoundUnit.push_isOk_iff`, `CompoundUnit.pushAll_isOk_iff`: When merging succeeds.
* `CompoundUnit.pushAll_of_mul`, `CompoundUnit.pushAll_of_div`,
  `CompoundUnit.pushAll_of_powInt`: Products, quotients and integer powers merge.
* `CompoundUnit.perm_of_powerOf`: The powers tell the factors.
-/

namespace Metrology

/-- Turning a power is multiplying it by minus one. -/
theorem UnitFactor.inverse_eq_times {α : Type} :
    (UnitFactor.inverse : UnitFactor α → UnitFactor α) = UnitFactor.times (-1) := by
  funext factor
  rw [UnitFactor.inverse, UnitFactor.times, Int.mul_neg_one]

namespace CompoundUnit

variable {α : Type}

/-- The power of a symbol in a product, zero if it does not occur. -/
def powerOf (symbol : String) (factors : List (UnitFactor α)) : ℤ :=
  (factors.map fun factor => if factor.symbol = symbol then factor.power else 0).sum

section Lists

variable (symbol : String)

theorem powerOf_nil : powerOf symbol ([] : List (UnitFactor α)) = 0 := rfl

@[simp]
theorem powerOf_cons (factor : UnitFactor α) (rest : List (UnitFactor α)) :
    powerOf symbol (factor :: rest) =
      (if factor.symbol = symbol then factor.power else 0) + powerOf symbol rest := by
  simp only [powerOf, List.map_cons, List.sum_cons]

theorem powerOf_append (first second : List (UnitFactor α)) :
    powerOf symbol (first ++ second) = powerOf symbol first + powerOf symbol second := by
  simp only [powerOf, List.map_append, List.sum_append]

theorem powerOf_of_not_mem (factors : List (UnitFactor α))
    (h : symbol ∉ factors.map (·.symbol)) : powerOf symbol factors = 0 := by
  induction factors with
  | nil => rfl
  | cons factor rest ih =>
      rw [List.map_cons, List.mem_cons, not_or] at h
      rw [powerOf_cons, if_neg (Ne.symm h.1), ih h.2, add_zero]

/-- A factor has the power of its symbol, if symbols occur once. -/
theorem powerOf_of_mem (factors : List (UnitFactor α)) (hdistinct : (factors.map (·.symbol)).Nodup)
    (factor : UnitFactor α) (hmem : factor ∈ factors) :
    powerOf factor.symbol factors = factor.power := by
  induction factors with
  | nil => exact absurd hmem List.not_mem_nil
  | cons first rest ih =>
      rw [List.map_cons, List.nodup_cons] at hdistinct
      rw [powerOf_cons]
      rcases List.mem_cons.mp hmem with rfl | hrest
      · rw [if_pos rfl, powerOf_of_not_mem _ rest hdistinct.1, add_zero]
      · have hother : first.symbol ≠ factor.symbol := by
          intro hsame
          exact hdistinct.1 (hsame ▸ List.mem_map_of_mem hrest)
        rw [if_neg hother, ih hdistinct.2 hrest, zero_add]

/-- A symbol with a power occurs. -/
theorem exists_of_powerOf_ne_zero (factors : List (UnitFactor α)) (h : powerOf symbol factors ≠ 0) :
    ∃ factor ∈ factors, factor.symbol = symbol := by
  by_contra hnone
  refine h (powerOf_of_not_mem symbol factors ?_)
  intro hmem
  rcases List.mem_map.mp hmem with ⟨factor, hfactor, hsymbol⟩
  exact hnone ⟨factor, hfactor, hsymbol⟩

/-- Leaving out powers of zero changes no power. -/
theorem powerOf_ofFactors (factors : List (UnitFactor α)) :
    powerOf symbol (ofFactors factors).factors = powerOf symbol factors := by
  unfold ofFactors
  induction factors with
  | nil => rfl
  | cons factor rest ih =>
      by_cases hpower : factor.power = 0
      · rw [List.filter_cons_of_neg (by simp [hpower]), ih, powerOf_cons, hpower, ite_self, zero_add]
      · rw [List.filter_cons_of_pos (by simp [hpower]), powerOf_cons, powerOf_cons, ih]

theorem powerOf_addPower (added : String) (power : ℤ) (factors : List (UnitFactor α))
    (h : added ∈ factors.map (·.symbol)) :
    powerOf symbol (addPower added power factors) =
      powerOf symbol factors + if added = symbol then power else 0 := by
  induction factors with
  | nil => exact absurd h List.not_mem_nil
  | cons factor rest ih =>
      rw [addPower]
      by_cases hfirst : factor.symbol = added
      · -- The first occurrence takes the power, and what is behind it stays.
        rw [if_pos hfirst, powerOf_cons, powerOf_cons]
        subst hfirst
        simp only
        split <;> omega
      · rw [List.map_cons, List.mem_cons] at h
        rw [if_neg hfirst, powerOf_cons, powerOf_cons, ih (h.resolve_left (Ne.symm hfirst)), add_assoc]

end Lists

section Merging

/-- Looking for a symbol finds nothing, or a factor with the power of the symbol. -/
theorem find?_symbol (symbol : String) (factors : List (UnitFactor α))
    (hdistinct : (factors.map (·.symbol)).Nodup) :
    (factors.find? (fun factor => factor.symbol = symbol) = Option.none ∧
      symbol ∉ factors.map (·.symbol) ∧ powerOf symbol factors = 0) ∨
    ∃ earlier, factors.find? (fun factor => factor.symbol = symbol) = some earlier ∧
      symbol ∈ factors.map (·.symbol) ∧ earlier.power = powerOf symbol factors := by
  cases hfind : factors.find? (fun factor => factor.symbol = symbol) with
  | none =>
      have habsent : symbol ∉ factors.map (·.symbol) := by
        intro hmem
        rcases List.mem_map.mp hmem with ⟨factor, hfactor, hsymbol⟩
        simpa [hsymbol] using List.find?_eq_none.mp hfind factor hfactor
      exact Or.inl ⟨rfl, habsent, powerOf_of_not_mem symbol factors habsent⟩
  | some earlier =>
      have hmem := List.mem_of_find?_eq_some hfind
      have hsymbol : earlier.symbol = symbol := by simpa using List.find?_some hfind
      refine Or.inr ⟨earlier, rfl, hsymbol ▸ List.mem_map_of_mem hmem, ?_⟩
      rw [← hsymbol, powerOf_of_mem factors hdistinct earlier hmem]

/-- Merging a factor adds its power to that of its symbol. -/
theorem push_powerOf (symbol : String) (unit result : CompoundUnit α) (factor : UnitFactor α)
    (h : unit.push factor = .ok result) :
    powerOf symbol result.factors =
      powerOf symbol unit.factors + if factor.symbol = symbol then factor.power else 0 := by
  rcases push_eq_ok unit result factor h with ⟨earlier, hfind, -, rfl⟩ | ⟨-, -, rfl⟩
  · have hmem : factor.symbol ∈ unit.factors.map (·.symbol) := by
      have hsymbol : earlier.symbol = factor.symbol := by simpa using List.find?_some hfind
      exact hsymbol ▸ List.mem_map_of_mem (List.mem_of_find?_eq_some hfind)
    rw [powerOf_ofFactors, powerOf_addPower _ _ _ _ hmem]
  · rw [powerOf_ofFactors, powerOf_append, powerOf_cons, powerOf_nil, add_zero]

/-- A factor can be merged if the sum of the powers is in range. -/
theorem push_isOk_iff (unit : CompoundUnit α) (factor : UnitFactor α)
    (hdistinct : (unit.factors.map (·.symbol)).Nodup) :
    (∃ result, unit.push factor = .ok result) ↔
      inRange (powerOf factor.symbol unit.factors + factor.power) = true := by
  unfold push
  rcases find?_symbol factor.symbol unit.factors hdistinct with
    ⟨hfind, -, hpower⟩ | ⟨earlier, hfind, -, hpower⟩
  · rw [hfind, hpower, zero_add]
    simp only
    split <;> simp_all
  · rw [hfind, ← hpower]
    simp only
    split <;> simp_all

/-- Merging factors adds their powers. -/
theorem pushAll_powerOf (symbol : String) (factors : List (UnitFactor α)) :
    ∀ unit result : CompoundUnit α, unit.pushAll factors = .ok result →
      powerOf symbol result.factors = powerOf symbol unit.factors + powerOf symbol factors := by
  induction factors with
  | nil =>
      intro unit result h
      rw [pushAll, List.foldlM_nil, Outcome.pure_eq_ok] at h
      rw [← h, powerOf_nil, add_zero]
  | cons factor rest ih =>
      intro unit result h
      rw [pushAll, List.foldlM_cons, Outcome.bind_eq_ok] at h
      rcases h with ⟨next, hnext, hrest⟩
      rw [ih next result hrest, push_powerOf symbol unit next factor hnext, powerOf_cons, add_assoc]

/-- The check changes nothing, so a product is what merging makes. -/
theorem pushAll_of_mul (unit other result : CompoundUnit α) (h : unit.mul other = .ok result) :
    unit.pushAll other.factors = .ok result := by
  rw [mul, Outcome.bind_eq_ok] at h
  rcases h with ⟨product, hproduct, hcheck⟩
  rw [((check_eq_ok _ _).mp hcheck).1, hproduct]

theorem pushAll_of_div (unit other result : CompoundUnit α) (h : unit.div other = .ok result) :
    unit.pushAll (other.factors.map (UnitFactor.times (-1))) = .ok result := by
  rw [div, Outcome.bind_eq_ok] at h
  rcases h with ⟨quotient, hquotient, hcheck⟩
  rw [((check_eq_ok _ _).mp hcheck).1, ← UnitFactor.inverse_eq_times]
  exact hquotient

theorem pushAll_of_powInt (unit result : CompoundUnit α) (n : ℤ) (h : unit.powInt n = .ok result) :
    none.pushAll (unit.factors.map (UnitFactor.times n)) = .ok result := by
  rw [powInt, Outcome.bind_eq_ok] at h
  rcases h with ⟨product, hproduct, hcheck⟩
  rw [((check_eq_ok _ _).mp hcheck).1]
  exact foldlM_multiplyPower n unit.factors none product hproduct

variable [Scalar α]

/-- Factors can be merged if every sum of powers is in range. -/
theorem pushAll_isOk_iff (factors : List (UnitFactor α))
    (hdistinct : (factors.map (·.symbol)).Nodup) (hknown : ∀ factor ∈ factors, Known factor) :
    ∀ unit : CompoundUnit α, Tidy unit.factors →
      ((∃ result, unit.pushAll factors = .ok result) ↔
        ∀ factor ∈ factors, inRange (powerOf factor.symbol unit.factors + factor.power) = true) := by
  induction factors with
  | nil =>
      intro unit _
      exact ⟨fun _ factor hmem => absurd hmem List.not_mem_nil, fun _ => ⟨unit, rfl⟩⟩
  | cons factor rest ih =>
      intro unit hunit
      rw [List.map_cons, List.nodup_cons] at hdistinct
      rw [List.forall_mem_cons, ← push_isOk_iff unit factor hunit.distinct, pushAll,
        List.foldlM_cons]
      -- The symbols behind the first one are others, so merging it does not matter for them.
      have hrest : ∀ next, unit.push factor = .ok next →
          ((∃ result, next.pushAll rest = .ok result) ↔ ∀ other ∈ rest,
            inRange (powerOf other.symbol unit.factors + other.power) = true) := by
        intro next hnext
        have htidy := push_tidy unit next factor hunit (hknown factor List.mem_cons_self) hnext
        rw [ih hdistinct.2 (fun f hf => hknown f (List.mem_cons_of_mem _ hf)) next htidy]
        refine forall₂_congr fun other hother => ?_
        have hsymbol : factor.symbol ≠ other.symbol := by
          intro hsame
          exact hdistinct.1 (hsame ▸ List.mem_map_of_mem hother)
        rw [push_powerOf other.symbol unit next factor hnext, if_neg hsymbol, add_zero]
      constructor
      · rintro ⟨result, h⟩
        rw [Outcome.bind_eq_ok] at h
        rcases h with ⟨next, hnext, hresult⟩
        exact ⟨⟨next, hnext⟩, (hrest next hnext).mp ⟨result, hresult⟩⟩
      · rintro ⟨⟨next, hnext⟩, hsums⟩
        rcases (hrest next hnext).mpr hsums with ⟨result, hresult⟩
        exact ⟨result, (Outcome.bind_eq_ok _ _ _).mpr ⟨next, hnext, hresult⟩⟩

/-- The powers of all symbols tell the factors of a tidy product, up to their order. -/
theorem perm_of_powerOf (first second : List (UnitFactor α)) (hfirst : Tidy first)
    (hsecond : Tidy second) (h : ∀ symbol, powerOf symbol first = powerOf symbol second) :
    first.Perm second := by
  -- Either list has the other's factors: the symbol with its power, and so with its meaning.
  have hsub : ∀ a b : List (UnitFactor α), Tidy a → Tidy b →
      (∀ symbol, powerOf symbol a = powerOf symbol b) → ∀ factor ∈ a, factor ∈ b := by
    intro a b ha hb hsame factor hmem
    have hpower := powerOf_of_mem a ha.distinct factor hmem
    rw [hsame] at hpower
    rcases exists_of_powerOf_ne_zero factor.symbol b (hpower ▸ ha.nonzero factor hmem) with
      ⟨other, hother, hsymbol⟩
    rw [← hsymbol, powerOf_of_mem b hb.distinct other hother] at hpower
    have hmeaning := hb.known other hother
    rw [Known, hsymbol, ha.known factor hmem, Option.some.injEq, Prod.mk.injEq] at hmeaning
    have hequal : factor = other := by
      cases factor
      cases other
      simp_all
    exact hequal ▸ hother
  refine (List.perm_ext_iff_of_nodup hfirst.distinct.of_map hsecond.distinct.of_map).mpr ?_
  intro factor
  exact ⟨hsub first second hfirst hsecond h factor,
    hsub second first hsecond hfirst (fun symbol => (h symbol).symm) factor⟩

end Merging

end CompoundUnit

end Metrology
