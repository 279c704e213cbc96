import Metrology.Proofs.Propagation.Units
import Metrology.Proofs.Unit.Running
import Metrology.Proofs.Unit.Scale

/-!
# Products the other way round

What becomes of a product of units when the two change places. Merging adds the powers of
each symbol, so both products have the same factors, but not in the same order: the factors
of the unit in front stay where they are, and those that only the other one has come behind
them. `merged` is that list.

The order matters for nothing but the range of the dimension, which is checked factor by
factor. `m^100` times `cm^100 in^-100` passes through a length to the power of 200 and is
refused, while `cm^100 in^-100` times `m^100` stays within a hundred. So one of the two
products may exist without the other, and this is the only way for them to differ: apart
from it, they both exist or they are both refused, and then they have the same factors, the
same dimension and the same scale.

## Main definitions

* `CompoundUnit.merged`: The factors of a product.
* `CompoundUnit.SumsInRange`: No sum of powers leaves the range of powers.

## Theorems

* `CompoundUnit.pushAll_factors`: Merging makes the merged list.
* `CompoundUnit.mul_isOk_iff`: When a product exists.
* `CompoundUnit.merged_perm`: The two orders have the same factors.
* `CompoundUnit.mul_comm_of_ok`: What two products have in common.
* `CompoundUnit.mul_not_commutative`: A product that exists one way only.
* `Expr.mul_commutes`: Products of units and of formulas.
-/

namespace Metrology

namespace CompoundUnit

variable {α : Type}

/-- The factors of a product: those in front with the powers from behind added to theirs,
    then those that only stand behind. Powers that add up to zero are left out. -/
def merged (first second : List (UnitFactor α)) : List (UnitFactor α) :=
  (ofFactors ((first.map fun factor =>
      { factor with power := factor.power + powerOf factor.symbol second }) ++
    second.filter fun factor => factor.symbol ∉ first.map (·.symbol))).factors

/-- No power leaves the range of powers. -/
def PowersInRange (unit : CompoundUnit α) : Prop :=
  ∀ factor ∈ unit.factors, inRange factor.power = true

/-- No sum of the powers of a symbol leaves the range of powers. -/
def SumsInRange (first second : List (UnitFactor α)) : Prop :=
  ∀ symbol, inRange (powerOf symbol first + powerOf symbol second) = true

theorem SumsInRange.symm (first second : List (UnitFactor α)) (h : SumsInRange first second) :
    SumsInRange second first := by
  intro symbol
  rw [add_comm]
  exact h symbol

section Lists

/-- With distinct symbols, adding to the power of one of them leaves the others alone. -/
theorem addPower_eq_map (symbol : String) (power : ℤ) (factors : List (UnitFactor α))
    (hdistinct : (factors.map (·.symbol)).Nodup) :
    addPower symbol power factors = factors.map fun factor =>
      { factor with power := factor.power + if symbol = factor.symbol then power else 0 } := by
  induction factors with
  | nil => rfl
  | cons factor rest ih =>
      rw [List.map_cons, List.nodup_cons] at hdistinct
      rw [addPower, List.map_cons]
      by_cases hsame : factor.symbol = symbol
      · -- Behind the symbol it does not occur again, so nothing is added there.
        have hrest : ∀ other ∈ rest, symbol ≠ other.symbol := by
          intro other hother hsymbol
          exact hdistinct.1 (hsame ▸ hsymbol ▸ List.mem_map_of_mem hother)
        rw [if_pos hsame, if_pos hsame.symm]
        refine congrArg _ ?_
        conv_lhs => rw [← List.map_id rest]
        refine List.map_congr_left fun other hother => ?_
        rw [if_neg (hrest other hother), Int.add_zero]
        rfl
      · rw [if_neg hsame, if_neg (Ne.symm hsame), Int.add_zero, ih hdistinct.2]

/-- Powers of zero may be left out before a change that keeps them zero. -/
theorem ofFactors_map_ofFactors (change : UnitFactor α → UnitFactor α)
    (factors : List (UnitFactor α))
    (hzero : ∀ factor ∈ factors, factor.power = 0 → (change factor).power = 0) :
    ofFactors ((ofFactors factors).factors.map change) = ofFactors (factors.map change) := by
  simp only [ofFactors, CompoundUnit.mk.injEq]
  induction factors with
  | nil => rfl
  | cons factor rest ih =>
      have hrest := ih fun other hother => hzero other (List.mem_cons_of_mem _ hother)
      by_cases hpower : factor.power = 0
      · have hchanged := hzero factor List.mem_cons_self hpower
        rw [List.filter_cons_of_neg (by simp [hpower]), hrest, List.map_cons,
          List.filter_cons_of_neg (by simp [hchanged])]
      · rw [List.filter_cons_of_pos (by simp [hpower]), List.map_cons, List.map_cons,
          List.filter_cons, List.filter_cons, hrest]

theorem ofFactors_append (first second : List (UnitFactor α)) :
    (ofFactors (first ++ second)).factors =
      (ofFactors first).factors ++ (ofFactors second).factors :=
  List.filter_append ..

theorem ofFactors_of_nonzero (factors : List (UnitFactor α))
    (hnonzero : ∀ factor ∈ factors, factor.power ≠ 0) : (ofFactors factors).factors = factors := by
  rw [ofFactors, List.filter_eq_self]
  intro factor hmem
  simpa using hnonzero factor hmem

end Lists

section Merging

variable [Scalar α]

/-- The symbols of a tidy product are those with a power. -/
theorem mem_symbols_iff (factors : List (UnitFactor α)) (h : Tidy factors) (symbol : String) :
    symbol ∈ factors.map (·.symbol) ↔ powerOf symbol factors ≠ 0 := by
  constructor
  · intro hmem
    rcases List.mem_map.mp hmem with ⟨factor, hfactor, rfl⟩
    rw [powerOf_of_mem factors h.distinct factor hfactor]
    exact h.nonzero factor hfactor
  · intro hpower
    rcases exists_of_powerOf_ne_zero symbol factors hpower with ⟨factor, hfactor, rfl⟩
    exact List.mem_map_of_mem hfactor

/-- The factors of a tidy product that merging one factor leaves behind the others. -/
theorem filter_push (unit next : CompoundUnit α) (factor : UnitFactor α)
    (rest : List (UnitFactor α)) (hunit : Tidy unit.factors) (hknown : Known factor)
    (hothers : ∀ other ∈ rest, other.symbol ≠ factor.symbol) (h : unit.push factor = .ok next) :
    (rest.filter fun other => other.symbol ∉ next.factors.map (·.symbol)) =
      rest.filter fun other => other.symbol ∉ unit.factors.map (·.symbol) := by
  have hnext := push_tidy unit next factor hunit hknown h
  refine List.filter_congr fun other hother => ?_
  rw [decide_eq_decide, mem_symbols_iff _ hnext, mem_symbols_iff _ hunit,
    push_powerOf other.symbol unit next factor h, if_neg (Ne.symm (hothers other hother)), add_zero]

/-- Merging one factor and then the others gives the merged list of all. -/
theorem merged_push (unit next : CompoundUnit α) (factor : UnitFactor α)
    (rest : List (UnitFactor α)) (hunit : Tidy unit.factors) (hknown : Known factor)
    (hnonzero : factor.power ≠ 0) (hrest : factor.symbol ∉ rest.map (·.symbol))
    (h : unit.push factor = .ok next) :
    merged next.factors rest = merged unit.factors (factor :: rest) := by
  have hothers : ∀ other ∈ rest, other.symbol ≠ factor.symbol := by
    intro other hother hsymbol
    exact hrest (hsymbol ▸ List.mem_map_of_mem hother)
  have hbehind := filter_push unit next factor rest hunit hknown hothers h
  have hgone := powerOf_of_not_mem factor.symbol rest hrest
  rw [merged, merged, hbehind]
  rcases push_eq_ok unit next factor h with ⟨earlier, hfind, -, rfl⟩ | ⟨hfind, -, rfl⟩
  · -- The symbol is there, so the factor changes a power and is not among those behind.
    have hsymbol : earlier.symbol = factor.symbol := by simpa using List.find?_some hfind
    have hmem : factor.symbol ∈ unit.factors.map (·.symbol) :=
      hsymbol ▸ List.mem_map_of_mem (List.mem_of_find?_eq_some hfind)
    rw [List.filter_cons_of_neg (by simp [hmem]), ofFactors_append, ofFactors_append,
      ofFactors_map_ofFactors, addPower_eq_map _ _ _ hunit.distinct, List.map_map]
    · congr 3
      refine List.map_congr_left fun other _ => ?_
      simp only [Function.comp_apply, powerOf_cons, add_assoc]
    · -- A power that has become zero is that of the symbol, which does not come again.
      intro other hother hpower
      rcases mem_addPower _ _ _ other hother with hother | ⟨found, -, hfound, rfl⟩
      · exact absurd hpower (hunit.nonzero other hother)
      · have hfoundSymbol : found.symbol = factor.symbol := by simpa using List.find?_some hfound
        simp only at hpower ⊢
        rw [hpower, hfoundSymbol, hgone, add_zero]
  · -- The symbol is new, so the factor is the first of those behind.
    have habsent : ∀ other ∈ unit.factors, factor.symbol ≠ other.symbol := by
      intro other hother hsame
      simpa [hsame] using List.find?_eq_none.mp hfind other hother
    have hnew : factor.symbol ∉ unit.factors.map (·.symbol) := by
      intro hmem
      rcases List.mem_map.mp hmem with ⟨other, hother, hsame⟩
      exact habsent other hother hsame.symm
    have hkept : (ofFactors (unit.factors ++ [factor])).factors = unit.factors ++ [factor] := by
      refine ofFactors_of_nonzero _ (fun other hother => ?_)
      rcases List.mem_append.mp hother with hother | hother
      · exact hunit.nonzero other hother
      · exact List.mem_singleton.mp hother ▸ hnonzero
    rw [hkept, List.filter_cons_of_pos (by simp [hnew]), List.map_append, List.map_singleton, hgone,
      add_zero, List.append_assoc, List.singleton_append]
    congr 3
    refine List.map_congr_left fun other hother => ?_
    rw [powerOf_cons, if_neg (habsent other hother), zero_add]

/-- Merging makes the merged list. -/
theorem pushAll_factors (factors : List (UnitFactor α)) (hfactors : Tidy factors) :
    ∀ unit result : CompoundUnit α, Tidy unit.factors → unit.pushAll factors = .ok result →
      result.factors = merged unit.factors factors := by
  induction factors with
  | nil =>
      intro unit result hunit h
      rw [pushAll, List.foldlM_nil, Outcome.pure_eq_ok] at h
      simp only [merged, powerOf_nil, add_zero, List.filter_nil, List.append_nil, List.map_id']
      rw [ofFactors_of_nonzero _ hunit.nonzero, h]
  | cons factor rest ih =>
      intro unit result hunit h
      have hknown := hfactors.known factor List.mem_cons_self
      have hdistinct := hfactors.distinct
      rw [List.map_cons, List.nodup_cons] at hdistinct
      have hrest : Tidy rest :=
        ⟨hdistinct.2, fun f hf => hfactors.known f (List.mem_cons_of_mem _ hf),
          fun f hf => hfactors.nonzero f (List.mem_cons_of_mem _ hf),
          fun f hf => hfactors.bounded f (List.mem_cons_of_mem _ hf)⟩
      rw [pushAll, List.foldlM_cons, Outcome.bind_eq_ok] at h
      rcases h with ⟨next, hnext, hresult⟩
      rw [ih hrest next result (push_tidy unit next factor hunit hknown hnext) hresult,
        merged_push unit next factor rest hunit hknown
          (hfactors.nonzero factor List.mem_cons_self) hdistinct.1 hnext]

/-- Merging succeeds if no sum of powers leaves the range. -/
theorem pushAll_isOk_iff_sums (unit : CompoundUnit α) (factors : List (UnitFactor α))
    (hunit : Tidy unit.factors) (hfactors : Tidy factors)
    (hpowers : unit.PowersInRange) :
    (∃ result, unit.pushAll factors = .ok result) ↔ SumsInRange unit.factors factors := by
  rw [pushAll_isOk_iff factors hfactors.distinct hfactors.known unit hunit]
  constructor
  · intro hsums symbol
    -- A symbol that does not stand behind keeps the power it has in front.
    by_cases hbehind : symbol ∈ factors.map (·.symbol)
    · rcases List.mem_map.mp hbehind with ⟨factor, hmem, rfl⟩
      rw [powerOf_of_mem factors hfactors.distinct factor hmem]
      exact hsums factor hmem
    · rw [powerOf_of_not_mem symbol factors hbehind, add_zero]
      by_cases hfront : symbol ∈ unit.factors.map (·.symbol)
      · rcases List.mem_map.mp hfront with ⟨factor, hmem, rfl⟩
        rw [powerOf_of_mem unit.factors hunit.distinct factor hmem]
        exact hpowers factor hmem
      · rw [powerOf_of_not_mem symbol unit.factors hfront]
        decide
  · intro hsums factor hmem
    rw [← powerOf_of_mem factors hfactors.distinct factor hmem]
    exact hsums factor.symbol

/-- A product exists if no sum of powers and no intermediate dimension leaves its range. -/
theorem mul_eq_ok_iff (unit other product : CompoundUnit α) (hunit : Tidy unit.factors)
    (hother : Tidy other.factors) (hpowers : unit.PowersInRange) :
    unit.mul other = .ok product ↔
      SumsInRange unit.factors other.factors ∧ RunsInRange (merged unit.factors other.factors) ∧
        product = ⟨merged unit.factors other.factors⟩ := by
  rw [← pushAll_isOk_iff_sums unit other.factors hunit hother hpowers, CompoundUnit.mul,
    Outcome.bind_eq_ok]
  have hmerged : ∀ result, unit.pushAll other.factors = .ok result →
      result = ⟨merged unit.factors other.factors⟩ := fun result h =>
    congrArg CompoundUnit.mk (pushAll_factors other.factors hother unit result hunit h)
  constructor
  · rintro ⟨result, hresult, hcheck⟩
    rcases (check_eq_ok_iff_runs _ _).mp hcheck with ⟨rfl, hruns⟩
    obtain rfl := hmerged product hresult
    exact ⟨⟨_, hresult⟩, hruns, rfl⟩
  · rintro ⟨⟨result, hresult⟩, hruns, rfl⟩
    obtain rfl := hmerged result hresult
    exact ⟨_, hresult, (check_eq_ok_iff_runs _ _).mpr ⟨rfl, hruns⟩⟩

/-- The two orders of a product have the same factors. -/
theorem merged_perm (unit other : CompoundUnit α) (hunit : Tidy unit.factors)
    (hother : Tidy other.factors) (hunitPowers : unit.PowersInRange)
    (hotherPowers : other.PowersInRange) (hsums : SumsInRange unit.factors other.factors) :
    (merged unit.factors other.factors).Perm (merged other.factors unit.factors) := by
  have hturned := hsums.symm unit.factors other.factors
  rcases (pushAll_isOk_iff_sums unit _ hunit hother hunitPowers).mpr hsums with ⟨first, hfirst⟩
  rcases (pushAll_isOk_iff_sums other _ hother hunit hotherPowers).mpr hturned with
    ⟨second, hsecond⟩
  rw [← pushAll_factors _ hother unit first hunit hfirst,
    ← pushAll_factors _ hunit other second hother hsecond]
  refine perm_of_powerOf _ _ (pushAll_tidy unit first _ hunit hother.known hfirst)
    (pushAll_tidy other second _ hother hunit.known hsecond) (fun symbol => ?_)
  rw [pushAll_powerOf symbol _ unit first hfirst, pushAll_powerOf symbol _ other second hsecond,
    add_comm]

/-- A product turned round has the same factors, or it is refused because of an
    intermediate dimension. -/
theorem mul_turned (unit other product : CompoundUnit α) (hunit : Tidy unit.factors)
    (hother : Tidy other.factors) (hunitPowers : unit.PowersInRange)
    (hotherPowers : other.PowersInRange) (h : unit.mul other = .ok product) :
    (∃ turned, other.mul unit = .ok turned ∧ product.factors.Perm turned.factors) ∨
      ¬RunsInRange (merged other.factors unit.factors) ∧
        ∀ turned, other.mul unit ≠ .ok turned := by
  rcases (mul_eq_ok_iff unit other product hunit hother hunitPowers).mp h with ⟨hsums, -, rfl⟩
  by_cases hruns : RunsInRange (merged other.factors unit.factors)
  · refine Or.inl ⟨⟨merged other.factors unit.factors⟩, ?_,
      merged_perm unit other hunit hother hunitPowers hotherPowers hsums⟩
    exact (mul_eq_ok_iff other unit _ hother hunit hotherPowers).mpr
      ⟨hsums.symm unit.factors other.factors, hruns, rfl⟩
  · refine Or.inr ⟨hruns, fun turned hturned => hruns ?_⟩
    exact ((mul_eq_ok_iff other unit turned hother hunit hotherPowers).mp hturned).2.1

end Merging

/-- The same factors make the same scale. -/
theorem exactScale_of_perm [Scalar α] [ReadScalar α] (unit other : CompoundUnit α)
    (h : unit.factors.Perm other.factors) : unit.exactScale = other.exactScale := by
  rw [exactScale_eq_prod, exactScale_eq_prod]
  exact (h.map factorScale).prod_eq

/-- What a product turned round is like. -/
theorem mul_comm_of_ok [Scalar α] [ReadScalar α] (unit other product : CompoundUnit α)
    (hunit : unit.Derived) (hother : other.Derived) (hunitPowers : unit.PowersInRange)
    (hotherPowers : other.PowersInRange) (h : unit.mul other = .ok product) :
    (∃ turned d, other.mul unit = .ok turned ∧ product.SameFactors turned ∧
      product.dimension = .ok d ∧ turned.dimension = .ok d ∧
      product.exactScale = turned.exactScale) ∨
      ¬RunsInRange (merged other.factors unit.factors) ∧
        ∃ e, other.mul unit = .error e ∧ e.IsOverflow := by
  rcases hunit.wellFormed.measures with ⟨d, hd⟩
  rcases hother.wellFormed.measures with ⟨e, he⟩
  rcases mul_turned unit other product hd.tidy he.tidy hunitPowers hotherPowers h with
    ⟨turned, hturned, hperm⟩ | ⟨hruns, hrefused⟩
  · have hproduct := (hd.mul he).value_of_ok _ product h
    have hback := (he.mul hd).value_of_ok _ turned hturned
    exact Or.inl ⟨turned, d + e, hturned, fun power => (hperm.map _).mem_iff,
      hproduct.dimension_eq, add_comm d e ▸ hback.dimension_eq,
      exactScale_of_perm product turned hperm⟩
  · refine Or.inr ⟨hruns, ?_⟩
    cases hturned : other.mul unit with
    | ok turned => exact absurd hturned (hrefused turned)
    | error err => exact ⟨err, rfl, (he.mul hd).failure_of_error _ err hturned⟩

/-- The product of `m^100` and `cm^100 in^-100` exists one way round only. -/
theorem mul_not_commutative :
    ∃ unit other : CompoundUnit Float, read "m^100" = .ok unit ∧
      read "cm^100 in^-100" = .ok other ∧ (∃ product, other.mul unit = .ok product) ∧
        ¬∃ product, unit.mul other = .ok product := by
  have hexists : ((read "m^100" : Except _ (CompoundUnit Float)).bind fun unit =>
      (read "cm^100 in^-100").bind fun other => (other.mul unit).bind dimension) =
      .ok { length := 100 } := Outcome.eq_ok_of_toOption _ _ (by decide +kernel)
  have hrefused : ((read "m^100" : Except _ (CompoundUnit Float)).bind fun unit =>
      (read "cm^100 in^-100").bind fun other => unit.mul other).toOption = Option.none := by
    decide +kernel
  rcases (Outcome.bind_eq_ok _ _ _).mp hexists with ⟨unit, hunit, hrest⟩
  rcases (Outcome.bind_eq_ok _ _ _).mp hrest with ⟨other, hother, hproduct⟩
  rcases (Outcome.bind_eq_ok _ _ _).mp hproduct with ⟨product, hmul, -⟩
  refine ⟨unit, other, hunit, hother, ⟨product, hmul⟩, ?_⟩
  rintro ⟨turned, hturned⟩
  rw [hunit, hother] at hrefused
  change (unit.mul other).toOption = Option.none at hrefused
  rw [hturned] at hrefused
  cases hrefused

end CompoundUnit

namespace Expr

open CompoundUnit (RunsInRange merged)

variable {α : Type} [Scalar α]

/-- The product of two formulas whose values are known. -/
theorem evaluate_mul_eq_ok (bindings : Bindings α) (left right : Expr α) (result : Quantity α) :
    (binary .mul left right).evaluate bindings = .ok result ↔
      ∃ p q, left.evaluate bindings = .ok p ∧ right.evaluate bindings = .ok q ∧
        result.value = p.value * q.value ∧ p.unit.mul q.unit = .ok result.unit := by
  rw [evaluate, Outcome.bind_eq_ok]
  simp only [Outcome.bind_eq_ok, applyBinary, liftUnit_eq_ok, Quantity.mul_eq_ok]
  constructor
  · rintro ⟨p, hp, q, hq, h⟩
    exact ⟨p, q, hp, hq, h⟩
  · rintro ⟨p, q, hp, hq, h⟩
    exact ⟨p, hp, q, hq, h⟩

/-- A product of two derived units whose powers are in range is also the product the other
    way round, with the same factors, dimension and scale, unless that is refused: an
    intermediate dimension of its factors in their own order is out of range. The same goes
    for products of formulas. -/
theorem mul_commutes [ReadScalar α] :
    (∀ unit other product : CompoundUnit α, unit.Derived → other.Derived → unit.PowersInRange →
      other.PowersInRange → unit.mul other = .ok product →
      (∃ turned d, other.mul unit = .ok turned ∧ product.SameFactors turned ∧
        product.dimension = .ok d ∧ turned.dimension = .ok d ∧
        product.exactScale = turned.exactScale) ∨
      ¬RunsInRange (merged other.factors unit.factors) ∧
        ∃ e, other.mul unit = .error e ∧ e.IsOverflow) ∧
    ∀ (bindings : Bindings α) (left right : Expr α) (product : Quantity α), bindings.Derived →
      (∀ p, left.evaluate bindings = .ok p → p.unit.PowersInRange) →
      (∀ q, right.evaluate bindings = .ok q → q.unit.PowersInRange) →
      (binary .mul left right).evaluate bindings = .ok product →
      (∃ turned d, (binary .mul right left).evaluate bindings = .ok turned ∧
        product.dimension = .ok d ∧ turned.dimension = .ok d) ∨
      ∃ p q e, left.evaluate bindings = .ok p ∧ right.evaluate bindings = .ok q ∧
        ¬RunsInRange (merged q.unit.factors p.unit.factors) ∧
        (binary .mul right left).evaluate bindings = .error (.unit e) ∧ e.IsOverflow := by
  refine ⟨fun unit other product hunit hother hunitPowers hotherPowers h =>
    CompoundUnit.mul_comm_of_ok unit other product hunit hother hunitPowers hotherPowers h, ?_⟩
  intro bindings left right product hbindings hleft hright h
  rcases (evaluate_mul_eq_ok bindings left right product).mp h with ⟨p, q, hp, hq, -, hunit⟩
  have hcomm := CompoundUnit.mul_comm_of_ok p.unit q.unit product.unit
    (evaluate_derived bindings hbindings left p hp) (evaluate_derived bindings hbindings right q hq)
    (hleft p hp) (hright q hq) hunit
  rcases hcomm with ⟨turned, d, hturned, -, hd, hd', -⟩ | ⟨hruns, e, herror, hoverflow⟩
  · refine Or.inl ⟨⟨q.value * p.value, turned⟩, d, ?_, hd, hd'⟩
    exact (evaluate_mul_eq_ok bindings right left _).mpr ⟨q, p, hq, hp, rfl, hturned⟩
  · refine Or.inr ⟨p, q, e, hp, hq, hruns, ?_, hoverflow⟩
    rw [evaluate, hq, hp]
    have hmul : q.mul p = .error e := by
      rw [Quantity.mul, herror]
      rfl
    change liftUnit (q.mul p) = _
    rw [hmul]
    rfl

section Impulse

open CompoundUnit (inRange)

/-- Two quantities with the names `a` and `b`. -/
def pair (a b : Quantity Float) : Bindings Float := (Bindings.empty.bind "a" a).bind "b" b

/-- A torque times a time per length is an impulse, and so is the product of the two the other
    way round, as units and as values of formulas. -/
theorem mul_commutes_impulse :
    ∃ torque rate product turned : CompoundUnit Float, CompoundUnit.read "N m" = .ok torque ∧
      CompoundUnit.read "s / m" = .ok rate ∧ torque.mul rate = .ok product ∧
      rate.mul torque = .ok turned ∧ product.SameFactors turned ∧
      product.exactScale = turned.exactScale ∧
      ∃ x y d,
        (binary .mul (symbol "a") (symbol "b")).evaluate (pair ⟨2, torque⟩ ⟨3, rate⟩) = .ok x ∧
        (binary .mul (symbol "b") (symbol "a")).evaluate (pair ⟨2, torque⟩ ⟨3, rate⟩) = .ok y ∧
        x.dimension = .ok d ∧ y.dimension = .ok d := by
  have hread : ((CompoundUnit.read "N m" : Except _ (CompoundUnit Float)).bind fun torque =>
      (CompoundUnit.read "s / m").bind fun rate => (torque.mul rate).bind fun _ =>
        (rate.mul torque).bind CompoundUnit.dimension) =
      .ok { mass := 1, length := 1, time := -1 } :=
    Outcome.eq_ok_of_toOption _ _ (by decide +kernel)
  rcases (Outcome.bind_eq_ok _ _ _).mp hread with ⟨torque, htorque, hrest⟩
  rcases (Outcome.bind_eq_ok _ _ _).mp hrest with ⟨rate, hrate, hrest⟩
  rcases (Outcome.bind_eq_ok _ _ _).mp hrest with ⟨product, hproduct, hrest⟩
  rcases (Outcome.bind_eq_ok _ _ _).mp hrest with ⟨turned, hturned, -⟩
  have htorquePowers : ((CompoundUnit.read "N m" : Except _ (CompoundUnit Float)).toOption.all fun unit =>
      unit.factors.all fun factor => inRange factor.power) = true := by decide +kernel
  have hratePowers : ((CompoundUnit.read "s / m" : Except _ (CompoundUnit Float)).toOption.all fun unit =>
      unit.factors.all fun factor => inRange factor.power) = true := by decide +kernel
  rw [htorque] at htorquePowers
  rw [hrate] at hratePowers
  have hsmall : torque.PowersInRange := List.all_eq_true.mp htorquePowers
  have hsmall' : rate.PowersInRange := List.all_eq_true.mp hratePowers
  have hbound : (pair ⟨2, torque⟩ ⟨3, rate⟩).Derived := by
    intro name q hq
    simp only [pair, Bindings.bind, Bindings.empty] at hq
    split at hq
    · exact Option.some.inj hq ▸ .read _ rate hrate
    · split at hq
      · exact Option.some.inj hq ▸ .read _ torque htorque
      · cases hq
  have ha : (symbol "a").evaluate (pair ⟨2, torque⟩ ⟨3, rate⟩) = .ok ⟨2, torque⟩ := rfl
  have hb : (symbol "b").evaluate (pair ⟨2, torque⟩ ⟨3, rate⟩) = .ok ⟨3, rate⟩ := rfl
  have hx : (binary .mul (symbol "a") (symbol "b")).evaluate (pair ⟨2, torque⟩ ⟨3, rate⟩) =
      .ok ⟨2 * 3, product⟩ :=
    (evaluate_mul_eq_ok _ _ _ _).mpr ⟨_, _, ha, hb, rfl, hproduct⟩
  have hy : (binary .mul (symbol "b") (symbol "a")).evaluate (pair ⟨2, torque⟩ ⟨3, rate⟩) =
      .ok ⟨3 * 2, turned⟩ :=
    (evaluate_mul_eq_ok _ _ _ _).mpr ⟨_, _, hb, ha, rfl, hturned⟩
  have hcommutes := mul_commutes (α := Float)
  have hunits := hcommutes.1 torque rate product (.read _ torque htorque) (.read _ rate hrate) hsmall
    hsmall' hproduct
  have hformulas := hcommutes.2 _ _ _ _ hbound
    (fun p hp => by rw [ha] at hp; cases hp; exact hsmall)
    (fun q hq => by rw [hb] at hq; cases hq; exact hsmall') hx
  -- The product the other way round is there, so neither of the two is refused.
  rw [hturned] at hunits
  rw [hy] at hformulas
  rcases hunits with ⟨back, -, hback, hsame, -, -, hscale⟩ | ⟨-, e, herror, -⟩
  · cases hback
    rcases hformulas with ⟨y, d, hvalue, hd, hd'⟩ | ⟨-, -, e, -, -, -, herror, -⟩
    · cases hvalue
      exact ⟨torque, rate, product, turned, htorque, hrate, hproduct, hturned, hsame, hscale,
        _, _, d, hx, hy, hd, hd'⟩
    · cases herror
  · cases herror

end Impulse

end Expr

end Metrology
