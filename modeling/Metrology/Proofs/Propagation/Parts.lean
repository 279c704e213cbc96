import Metrology.Proofs.Expr.Unconditional
import Metrology.Proofs.Propagation.LinearizedLaw
import Metrology.Proofs.Propagation.Variances

/-!
# Variances of sums and multiples

A composite measurement whose formula is a sum of two others' formulas has the sum of
their variances, if no measurement is a dependency of both. With a constant in front of
the formula, the variance is multiplied by the square of the constant. Neither asks what
the formulas are, or what is below their dependencies.

It is the trees that are added and multiplied, and each of the measurements is
evaluated on its own. What carries the laws is that names mean the same everywhere. A
symbol that a formula mentions means the one measurement that carries it, or else a
constant; a formula that mentions the symbol of the measurement it belongs to has no
value. So the dependencies of a sum are those of its parts, and a dependency of one part
only has the derivative of that part.

## Main definitions

* `Graph.varianceOf`: The variance of a measurement, if it has one.
* `Graph.Unfolds`: A composite measurement with all that it is evaluated from.

## Theorems

* `Graph.Unfolds.mem_iff`, `Graph.Unfolds.bound_eq`: What names mean.
* `Graph.HasVariance.unfolds`: Variances as sums over dependencies.
* `Graph.variance_sum`, `Graph.variance_multiple`: The laws for variances as numbers.
* `Propagator.variance_of_parts`: The laws for what a propagator finds.
-/

namespace Metrology

namespace Graph

open Evaluation

section Names

variable {α : Type} (g : Graph α) (hids : g.DistinctIds) (hsymbols : g.DistinctSymbols)

include hids hsymbols in
/-- What a resolved name means does not depend on where it is mentioned. -/
theorem find?_eq_some_iff (m : CompositeMeasurement) (hm : .composite m ∈ g.measurements)
    (name : String) (hresolved : g.Resolved m name) (other : Measurement α) :
    g.find? m name = some other ↔ other ∈ g.measurements ∧ other.symbol? = some name := by
  constructor
  · intro h
    exact ⟨(g.find?_eq_some m name other h).1, (g.find?_eq_some m name other h).2.1⟩
  · rintro ⟨hother, hsymbol⟩
    cases hfind : g.find? m name with
    | some found =>
        rcases g.find?_eq_some m name found hfind with ⟨hfound, hsame, -⟩
        rw [hsymbols.eq_of_symbol g found other hfound hother name hsame hsymbol]
    | none =>
        -- Only the measurement itself is passed over, and its own symbol is not resolved.
        by_cases hid : other.id = m.id
        · rw [hids.eq_of_id g other (.composite m) hother hm hid] at hsymbol
          exact absurd hsymbol (hresolved hfind).1
        · exact absurd hsymbol ((g.find?_eq_none m name).mp hfind other hother hid)

variable [Scalar α]

/-- A composite measurement with its formula, its dependencies, and what the formula is
    evaluated at. -/
structure Unfolds (m : CompositeMeasurement) (tree : Expr Decimal)
    (dependencies : List (Measurement α)) (bound : Bindings α) : Prop where
  mem : .composite m ∈ g.measurements
  tree_eq : m.tree (α := α) = .ok tree
  dependencies_eq : g.dependencies m = .ok dependencies
  binds : Binds g.Present dependencies g.constants bound

namespace Unfolds

variable {g} {m m' : CompositeMeasurement} {tree tree' : Expr Decimal}
  {dependencies dependencies' : List (Measurement α)} {bound bound' : Bindings α}
  (h : g.Unfolds m tree dependencies bound) (h' : g.Unfolds m' tree' dependencies' bound')

include h hids hsymbols in
/-- The dependencies are the measurements whose symbols are mentioned. -/
theorem mem_iff (other : Measurement α) :
    other ∈ dependencies ↔
      other ∈ g.measurements ∧ ∃ name ∈ tree.freeSymbols, other.symbol? = some name := by
  rcases g.dependencies_eq_ok hids m dependencies h.dependencies_eq with
    ⟨tree', htree', hresolved, hall⟩
  rw [h.tree_eq, Except.ok.injEq] at htree'
  subst htree'
  rw [hall]
  constructor
  · rintro ⟨name, hname, hfind⟩
    rw [g.find?_eq_some_iff hids hsymbols m h.mem name (hresolved name hname)] at hfind
    exact ⟨hfind.1, name, hname, hfind.2⟩
  · rintro ⟨hother, name, hname, hsymbol⟩
    refine ⟨name, hname, ?_⟩
    exact (g.find?_eq_some_iff hids hsymbols m h.mem name (hresolved name hname) other).mpr
      ⟨hother, hsymbol⟩

include h hids hsymbols in
/-- A name that no measurement carries is bound to its constant. -/
theorem bound_constant (name : String)
    (hfree : ∀ other ∈ g.measurements, other.symbol? ≠ some name) :
    bound name = g.constants name := by
  rcases h.binds.apply _ _ _ _ name with ⟨other, hother, hsymbol, -⟩ | ⟨-, hresult⟩
  · exact absurd hsymbol (hfree other ((h.mem_iff hids hsymbols other).mp hother).1)
  · exact hresult

include h hids hsymbols in
/-- A name that a measurement carries is bound to the mean of that. -/
theorem bound_mean (name : String) (hname : name ∈ tree.freeSymbols) (other : Measurement α)
    (hother : other ∈ g.measurements) (hsymbol : other.symbol? = some name) :
    ∃ q, bound name = some q ∧ g.HasMean other (some q) := by
  rcases h.binds.apply _ _ _ _ name with ⟨found, hfound, hsame, q, hq, hbound⟩ | ⟨hnone, -⟩
  · have hmem := ((h.mem_iff hids hsymbols found).mp hfound).1
    rw [hsymbols.eq_of_symbol g found other hmem hother name hsame hsymbol] at hq
    exact ⟨q, hbound, hq q rfl⟩
  · exact absurd hsymbol (hnone other ((h.mem_iff hids hsymbols other).mpr
      ⟨hother, name, hname, hsymbol⟩))

include h h' hids hsymbols in
/-- A name that two formulas mention is bound to the same in both. -/
theorem bound_eq (name : String) (hname : name ∈ tree.freeSymbols)
    (hname' : name ∈ tree'.freeSymbols) : bound name = bound' name := by
  by_cases hcarried : ∃ other ∈ g.measurements, other.symbol? = some name
  · rcases hcarried with ⟨other, hother, hsymbol⟩
    rcases h.bound_mean hids hsymbols name hname other hother hsymbol with ⟨q, hbound, hmean⟩
    rcases h'.bound_mean hids hsymbols name hname' other hother hsymbol with ⟨q', hbound', hmean'⟩
    rw [hbound, hbound', hmean.unique g other _ _ hmean']
  · have hfree : ∀ other ∈ g.measurements, other.symbol? ≠ some name :=
      fun other hother hsymbol => hcarried ⟨other, hother, hsymbol⟩
    rw [h.bound_constant hids hsymbols name hfree, h'.bound_constant hids hsymbols name hfree]

end Unfolds

end Names

section Slopes

variable (bound : Bindings ℝ) (a b : Expr Decimal) (m : Measurement ℝ)

theorem slope_add : slope bound (.binary .add a b) m = slope bound a m + slope bound b m :=
  Expr.denote_differentiate_add _ _ _ _

theorem slope_sub : slope bound (.binary .sub a b) m = slope bound a m - slope bound b m :=
  Expr.denote_differentiate_sub _ _ _ _

theorem slope_mul :
    slope bound (.binary .mul a b) m =
      slope bound a m * (Expr.ofDecimals b).denote bound.value +
        (Expr.ofDecimals a).denote bound.value * slope bound b m :=
  Expr.denote_differentiate_mul _ _ _ _

/-- A formula does not vary with a measurement whose symbol it does not mention. -/
theorem slope_unmentioned (symbol : String) (hsymbol : m.symbol? = some symbol)
    (h : symbol ∉ a.freeSymbols) : slope bound a m = 0 := by
  rw [slope, hsymbol, Option.getD_some]
  refine Expr.denote_differentiate_unmentioned _ _ _ ?_
  rw [Expr.mentions_ofDecimals, ← Bool.not_eq_true, ← Expr.mem_freeSymbols]
  exact h

/-- A formula varies with a measurement as the names it mentions say. -/
theorem slope_congr (bound' : Bindings ℝ) (h : ∀ name ∈ a.freeSymbols, bound name = bound' name) :
    slope bound a m = slope bound' a m := by
  refine Expr.denote_congr _ _ _ (Expr.MentionsOnly.differentiate _ _ fun name hname => ?_)
  rw [Expr.mentions_ofDecimals, ← Expr.mem_freeSymbols] at hname
  rw [Bindings.value, Bindings.value, h name hname]

theorem mem_freeSymbols_binary (op : BinaryOp) (name : String) :
    name ∈ (Expr.binary op a b).freeSymbols ↔ name ∈ a.freeSymbols ∨ name ∈ b.freeSymbols := by
  rw [Expr.mem_freeSymbols, Expr.mem_freeSymbols, Expr.mem_freeSymbols, Expr.mentions,
    Bool.or_eq_true]

end Slopes

section Laws

variable (g : Graph ℝ) (hids : g.DistinctIds) (hsymbols : g.DistinctSymbols)
  (types : UncertaintyTypes)

open Classical in
/-- The variance of a measurement, if it has one. -/
noncomputable def varianceOf (m : Measurement ℝ) : ℝ :=
  if h : ∃ v, g.HasVariance types m v then h.choose else 0

theorem HasVariance.varianceOf_eq (m : Measurement ℝ) (v : ℝ) (h : g.HasVariance types m v) :
    g.varianceOf types m = v := by
  have hvariance : ∃ v, g.HasVariance types m v := ⟨v, h⟩
  rw [varianceOf, dif_pos hvariance]
  exact hvariance.choose_spec.unique g types m _ _ h

/-- A variance is a sum over dependencies. -/
theorem HasVariance.unfolds (m : CompositeMeasurement) (hm : .composite m ∈ g.measurements)
    (tree : Expr Decimal) (htree : m.tree (α := ℝ) = .ok tree) (v : ℝ)
    (h : g.HasVariance types (.composite m) v) :
    ∃ dependencies bound, g.Unfolds m tree dependencies bound ∧
      v = (dependencies.map fun dependency =>
        slope bound tree dependency ^ 2 * g.varianceOf types dependency).sum := by
  cases h with
  | composite _ tree' dependencies bound variance htree' hdependencies hbinds hvariance =>
      rw [htree, Except.ok.injEq] at htree'
      subst htree'
      refine ⟨dependencies, bound, ⟨hm, htree, hdependencies, hbinds⟩, ?_⟩
      refine congrArg List.sum (List.map_congr_left fun dependency hmem => ?_)
      rw [(hvariance dependency hmem).varianceOf_eq]

include hids hsymbols

/-- A sum or a difference has the sum of the variances of its parts, if no measurement is
    a dependency of both. -/
theorem variance_sum (op : BinaryOp) (hop : op = .add ∨ op = .sub) (z y x : CompositeMeasurement)
    (hz : .composite z ∈ g.measurements) (hy : .composite y ∈ g.measurements)
    (hx : .composite x ∈ g.measurements) (a b : Expr Decimal)
    (hsum : z.tree (α := ℝ) = .ok (.binary op a b)) (ha : y.tree (α := ℝ) = .ok a)
    (hb : x.tree (α := ℝ) = .ok b)
    (happart : ∀ other, g.References (.composite y) other → ¬ g.References (.composite x) other)
    (v va vb : ℝ) (hv : g.HasVariance types (.composite z) v)
    (hva : g.HasVariance types (.composite y) va) (hvb : g.HasVariance types (.composite x) vb) :
    v = va + vb := by
  rcases hv.unfolds g types z hz _ hsum with ⟨dependencies, bound, hz, rfl⟩
  rcases hva.unfolds g types y hy _ ha with ⟨left, boundA, hy, rfl⟩
  rcases hvb.unfolds g types x hx _ hb with ⟨right, boundB, hx, rfl⟩
  have hdisjoint : ∀ other ∈ left, other ∉ right := by
    intro other hleft hright
    rw [g.mem_dependencies_iff hids y left hy.dependencies_eq] at hleft
    rw [g.mem_dependencies_iff hids x right hx.dependencies_eq] at hright
    exact happart other hleft hright
  -- The dependencies of the sum are those of both parts.
  have hall : dependencies.Perm (left ++ right) := by
    refine (List.perm_ext_iff_of_nodup (g.dependencies_nodup z _ hz.dependencies_eq)
      (List.Nodup.append (g.dependencies_nodup y _ hy.dependencies_eq)
        (g.dependencies_nodup x _ hx.dependencies_eq) hdisjoint)).mpr fun other => ?_
    rw [List.mem_append, hz.mem_iff hids hsymbols, hy.mem_iff hids hsymbols,
      hx.mem_iff hids hsymbols, ← and_or_left, ← exists_or]
    refine and_congr_right fun _ => exists_congr fun name => ?_
    rw [mem_freeSymbols_binary, or_and_right]
  -- A dependency of one part does not occur in the other part, which so does not vary.
  have hleft : ∀ other ∈ left, slope bound (.binary op a b) other ^ 2 =
      slope boundA a other ^ 2 := by
    intro other hother
    rcases (hy.mem_iff hids hsymbols other).mp hother with ⟨hmem, symbol, -, hsymbol⟩
    have hvanishes : slope bound b other = 0 := slope_unmentioned bound b other symbol hsymbol
      fun hname => hdisjoint other hother
        ((hx.mem_iff hids hsymbols other).mpr ⟨hmem, symbol, hname, hsymbol⟩)
    have hsame := slope_congr bound a other boundA fun name hname =>
      hz.bound_eq hids hsymbols hy name ((mem_freeSymbols_binary a b op name).mpr (Or.inl hname))
        hname
    rcases hop with rfl | rfl
    · rw [slope_add, hvanishes, hsame, add_zero]
    · rw [slope_sub, hvanishes, hsame, sub_zero]
  have hright : ∀ other ∈ right, slope bound (.binary op a b) other ^ 2 =
      slope boundB b other ^ 2 := by
    intro other hother
    rcases (hx.mem_iff hids hsymbols other).mp hother with ⟨hmem, symbol, -, hsymbol⟩
    have hvanishes : slope bound a other = 0 := slope_unmentioned bound a other symbol hsymbol
      fun hname => hdisjoint other
        ((hy.mem_iff hids hsymbols other).mpr ⟨hmem, symbol, hname, hsymbol⟩) hother
    have hsame := slope_congr bound b other boundB fun name hname =>
      hz.bound_eq hids hsymbols hx name ((mem_freeSymbols_binary a b op name).mpr (Or.inr hname))
        hname
    rcases hop with rfl | rfl
    · rw [slope_add, hvanishes, hsame, zero_add]
    · rw [slope_sub, hvanishes, hsame, zero_sub, neg_sq]
  rw [(hall.map _).sum_eq, List.map_append, List.sum_append]
  congr 2
  · exact List.map_congr_left fun other hother => by rw [hleft other hother]
  · exact List.map_congr_left fun other hother => by rw [hright other hother]

/-- A constant in front of a formula multiplies the variance by its square. -/
theorem variance_multiple (z y : CompositeMeasurement) (hz : .composite z ∈ g.measurements)
    (hy : .composite y ∈ g.measurements) (k a : Expr Decimal) (q : Quantity ℝ)
    (hproduct : z.tree (α := ℝ) = .ok (.binary .mul k a)) (ha : y.tree (α := ℝ) = .ok a)
    (hconstant : ∀ name ∈ k.freeSymbols, ∀ other ∈ g.measurements, other.symbol? ≠ some name)
    (hk : (Expr.ofDecimals k).evaluate g.constants = .ok q) (v va : ℝ)
    (hv : g.HasVariance types (.composite z) v) (hva : g.HasVariance types (.composite y) va) :
    v = q.value ^ 2 * va := by
  rcases hv.unfolds g types z hz _ hproduct with ⟨dependencies, bound, hz, rfl⟩
  rcases hva.unfolds g types y hy _ ha with ⟨dependencies', boundA, hy, rfl⟩
  -- Both have the same dependencies, which the constant does not mention.
  have hall : dependencies.Perm dependencies' := by
    refine (List.perm_ext_iff_of_nodup (g.dependencies_nodup z _ hz.dependencies_eq)
      (g.dependencies_nodup y _ hy.dependencies_eq)).mpr fun other => ?_
    rw [hz.mem_iff hids hsymbols, hy.mem_iff hids hsymbols]
    refine and_congr_right fun hother => exists_congr fun name => ?_
    rw [mem_freeSymbols_binary]
    constructor
    · rintro ⟨hname | hname, hsymbol⟩
      · exact absurd hsymbol (hconstant name hname other hother)
      · exact ⟨hname, hsymbol⟩
    · rintro ⟨hname, hsymbol⟩
      exact ⟨Or.inr hname, hsymbol⟩
  have hvalue : (Expr.ofDecimals k).denote bound.value = q.value := by
    rw [Expr.value_of_evaluate g.constants _ q hk]
    refine Expr.denote_congr _ _ _ fun name hname => ?_
    rw [Expr.mentions_ofDecimals, ← Expr.mem_freeSymbols] at hname
    rw [Bindings.value, Bindings.value, hz.bound_constant hids hsymbols name (hconstant name hname)]
  have hslope : ∀ other ∈ dependencies', slope bound (.binary .mul k a) other =
      q.value * slope boundA a other := by
    intro other hother
    rcases (hy.mem_iff hids hsymbols other).mp hother with ⟨hmem, symbol, -, hsymbol⟩
    have hvanishes : slope bound k other = 0 := slope_unmentioned bound k other symbol hsymbol
      fun hname => hconstant symbol hname other hmem hsymbol
    have hsame := slope_congr bound a other boundA fun name hname =>
      hz.bound_eq hids hsymbols hy name ((mem_freeSymbols_binary k a .mul name).mpr (Or.inr hname))
        hname
    rw [slope_mul, hvanishes, hvalue, hsame, zero_mul, zero_add]
  rw [(hall.map _).sum_eq, ← List.sum_map_mul_left]
  refine congrArg List.sum (List.map_congr_left fun other hother => ?_)
  rw [hslope other hother, mul_pow, mul_assoc]

end Laws

end Graph

namespace Propagator

open Evaluation

variable {σ : Type} [DerivativeStore σ ℝ]

/-- The variance of a sum or a difference of formulas is the sum of their variances, if no
    measurement is a dependency of both. The variance of a multiple of a formula is
    multiplied by the square of the constant in front of it: of a literal, say, or of a
    constant that names no measurement. -/
theorem variance_of_parts (p : Propagator σ ℝ) (all : List (Measurement ℝ))
    (hids : (all.map Measurement.id).Nodup) (hsymbols : (all.filterMap Measurement.symbol?).Nodup)
    (types : UncertaintyTypes)
    (hstore : ∀ m ∈ all, DerivativeStore.Answers ((p.graph all).Asks m) p.store)
    (z y : CompositeMeasurement) (hz : .composite z ∈ all) (hy : .composite y ∈ all)
    (a : Expr Decimal) (ha : y.tree (α := ℝ) = .ok a) (v va : Quantity ℝ)
    (hv : ((Propagator.combinedVariance (.composite z) all types).run p).1 = .ok (some v))
    (hva : ((Propagator.combinedVariance (.composite y) all types).run p).1 = .ok (some va)) :
    (∀ (op : BinaryOp) (x : CompositeMeasurement) (b : Expr Decimal) (vb : Quantity ℝ),
      (op = .add ∨ op = .sub) → .composite x ∈ all → x.tree (α := ℝ) = .ok b →
      z.tree (α := ℝ) = .ok (.binary op a b) →
      ((Propagator.combinedVariance (.composite x) all types).run p).1 = .ok (some vb) →
      (∀ other, (p.graph all).References (.composite y) other →
        ¬ (p.graph all).References (.composite x) other) →
        v.value = va.value + vb.value) ∧
      ∀ (k : Expr Decimal) (q : Quantity ℝ), z.tree (α := ℝ) = .ok (.binary .mul k a) →
        (∀ name ∈ k.freeSymbols, ∀ other ∈ all, other.symbol? ≠ some name) →
        (Expr.ofDecimals k).evaluate p.constants = .ok q →
          v.value = q.value ^ 2 * va.value := by
  -- What is found of each of them alone is its variance as a number.
  have hvariance : ∀ (m : CompositeMeasurement) (w : Quantity ℝ), .composite m ∈ all →
      ((Propagator.combinedVariance (.composite m) all types).run p).1 = .ok (some w) →
        (p.graph all).HasVariance types (.composite m) w.value := fun m w hm hw =>
    hasVariance_of_combinedVariance p all hids _ hm types (hstore _ hm) w hw
  constructor
  · intro op x b vb hop hx hb hsum hvb happart
    exact (p.graph all).variance_sum hids hsymbols types op hop z y x hz hy hx a b hsum ha hb happart
      _ _ _ (hvariance z v hz hv) (hvariance y va hy hva) (hvariance x vb hx hvb)
  · intro k q hproduct hconstant hk
    exact (p.graph all).variance_multiple hids hsymbols types z y hz hy k a q hproduct ha hconstant
      hk _ _ (hvariance z v hz hv) (hvariance y va hy hva)

section Example

/-- A number with a name, found to be 1 and then to be 3. -/
noncomputable def unknown (name : String) : Measurement ℝ :=
  .direct (sampled (if name = "x" then 1 else 2) name)

def onlyX : CompositeMeasurement := ⟨⟨4⟩, ⟨"a"⟩, ⟨"x"⟩⟩

def onlyY : CompositeMeasurement := ⟨⟨5⟩, ⟨"b"⟩, ⟨"y"⟩⟩

def sumOfBoth : CompositeMeasurement := ⟨⟨6⟩, ⟨"s"⟩, ⟨"x + y"⟩⟩

/-- Two numbers, each of them as a formula, their sum, and the double of one. -/
noncomputable def formulas : Graph ℝ where
  measurements := [unknown "x", unknown "y", .composite doubled, .composite onlyX,
    .composite onlyY, .composite sumOfBoth]
  constants := Bindings.empty

/-- The variance that a propagator finds of one of them from the samples. -/
noncomputable def sampledVariance (m : CompositeMeasurement) :
    Except (PropagationError ℝ) (Option (Quantity ℝ)) :=
  ((Propagator.combinedVariance (.composite m) formulas.measurements { typeB := false }).run
    (⟨Bindings.empty, ⟨⟩⟩ : Propagator (NoMemory ℝ) ℝ)).1

theorem symbol_unknown (name : String) (hname : name ∈ ["x", "y"]) :
    (unknown name).symbol? = some name :=
  symbol_names name (List.mem_append_left ["d"] hname)

/-- The means of such numbers. -/
noncomputable def bothTwo (names : List String) (bound : Bindings ℝ) : Bindings ℝ :=
  names.foldl (fun bound name => bound.bind name (.number 2)) bound

/-- The number, whether or not it has been found before. -/
theorem run_mean_unknown (fuel : ℕ) (name : String) (context : Context (NoMemory ℝ) ℝ)
    (hmeans : ∀ entry ∈ context.means, entry.2 = some (.number 2)) :
    ∃ after, (Evaluation.mean formulas fuel (unknown name)).run context =
        (.ok (some (.number 2)), after) ∧
      ∀ entry ∈ after.means, entry.2 = some (.number 2) := by
  have hdirect : Evaluation.mean (σ := NoMemory ℝ) formulas fuel (unknown name) =
      remembered (unknown name).id (Evaluation.ofExcept (.ok (some (.number 2)))) := by
    rw [← directMean_sampled]
    cases fuel <;> rfl
  rw [hdirect, run_remembered]
  cases hlookup : context.means.lookup (unknown name).id with
  | none => exact ⟨_, rfl, List.forall_mem_cons.mpr ⟨rfl, hmeans⟩⟩
  | some known =>
      rcases List.lookup_eq_some_iff.mp hlookup with ⟨before, rest, hsplit, -⟩
      have hknown : known = some (.number 2) :=
        hmeans (_, known) (hsplit ▸ List.mem_append_right _ List.mem_cons_self)
      exact ⟨context, by rw [hknown], hmeans⟩

theorem run_bindMeans_unknown (fuel : ℕ) (names : List String)
    (hnames : ∀ name ∈ names, name ∈ ["x", "y"]) (bound : Bindings ℝ)
    (context : Context (NoMemory ℝ) ℝ)
    (hmeans : ∀ entry ∈ context.means, entry.2 = some (.number 2)) :
    ∃ after, (bindMeans (Evaluation.mean formulas fuel) (names.map unknown) bound).run context =
      (.ok (some (bothTwo names bound)), after) := by
  induction names generalizing bound context with
  | nil => exact ⟨context, rfl⟩
  | cons name rest ih =>
      rw [List.forall_mem_cons] at hnames
      rcases run_mean_unknown fuel name context hmeans with ⟨next, hmean, hmeans'⟩
      rcases ih hnames.2 (bound.bind name (.number 2)) next hmeans' with ⟨after, hrest⟩
      refine ⟨after, ?_⟩
      rw [List.map_cons, bindMeans, Outcome.run_bind, hmean]
      simp only
      rw [symbol_unknown name hnames.1]
      exact hrest

theorem run_addTerms_unknown (fuel : ℕ) (tree : Expr ℝ) (bound : Bindings ℝ)
    (slope : String → ℝ) (names : List String) (hnames : ∀ name ∈ names, name ∈ ["x", "y"])
    (hslope : ∀ name ∈ names,
      (tree.differentiate name).evaluate bound = .ok (.number (slope name)))
    (total : ℝ) (context : Context (NoMemory ℝ) ℝ) :
    (addTerms tree bound (Evaluation.combinedVariance formulas { typeB := false } fuel)
      (names.map unknown) (.number total)).run context =
        (.ok (some (.number (total + (names.map fun name => slope name * slope name).sum))),
          context) := by
  induction names generalizing total with
  | nil =>
      rw [List.map_nil, List.map_nil, List.sum_nil, add_zero]
      rfl
  | cons name rest ih =>
      rw [List.forall_mem_cons] at hnames hslope
      rw [List.map_cons, run_addTerms_cons _ _ _ _ _ _ _ _ _ _ _ (symbol_unknown name hnames.1)
          (run_variance_sampled _ _ _ _ _) (isZero_number 1 one_ne_zero)
          (addContribution_number _ _ _ _ _ _ hslope.1),
        ih hnames.2 hslope.2, List.map_cons, List.sum_cons, mul_one, add_assoc]

/-- The variance of one of the formulas, from its derivatives. -/
theorem sampledVariance_eq (m : CompositeMeasurement)
    (hdepth : formulas.depth (.composite m) = 4) (tree : Expr Decimal)
    (htree : m.tree (α := ℝ) = .ok tree) (names : List String)
    (hnames : ∀ name ∈ names, name ∈ ["x", "y"])
    (hdependencies : formulas.dependencies m = .ok (names.map unknown)) (mean : ℝ)
    (slope : String → ℝ)
    (hmean : (Expr.ofDecimals tree).evaluate (bothTwo names Bindings.empty) = .ok (.number mean))
    (hslope : ∀ name ∈ names, ((Expr.ofDecimals tree).differentiate name).evaluate
      (bothTwo names Bindings.empty) = .ok (.number (slope name))) :
    sampledVariance m =
      .ok (some (.number (names.map fun name => slope name * slope name).sum)) := by
  rcases run_bindMeans_unknown 3 names hnames Bindings.empty (inside m ⟨⟩)
    (fun _ hmem => absurd hmem List.not_mem_nil) with ⟨after, hbound⟩
  have hbindings : (bindings formulas (Evaluation.mean formulas 3) m).run (inside m ⟨⟩) =
      (.ok (some (bothTwo names Bindings.empty)), after) := by
    rw [bindings, hdependencies, Outcome.run_bind, run_ofExcept]
    exact hbound
  rw [sampledVariance, fst_combinedVariance_composite _ formulas rfl _ _ 3 hdepth,
    run_compositeVariance _ _ _ _ _ _ _ _ _ .none _ htree hbindings hmean rfl hdependencies,
    inUnit_zero, run_addTerms_unknown _ _ _ slope _ hnames hslope, zero_add]

theorem find?_unknown (m : CompositeMeasurement)
    (hm : ∀ name ∈ ["x", "y"], (unknown name).id ≠ m.id) (name : String)
    (hname : name ∈ ["x", "y"]) : formulas.find? m name = some (unknown name) := by
  have hx := hm "x" (by decide)
  have hy := hm "y" (by decide)
  rw [List.mem_pair] at hname
  rcases hname with rfl | rfl
  all_goals simp [Graph.find?, formulas, symbol_unknown, hx, hy]

theorem tree_onlyX : onlyX.tree (α := ℝ) = .ok (.symbol "x") :=
  Outcome.eq_ok_of_toOption _ _ (by decide)

theorem tree_onlyY : onlyY.tree (α := ℝ) = .ok (.symbol "y") :=
  Outcome.eq_ok_of_toOption _ _ (by decide)

theorem tree_sumOfBoth :
    sumOfBoth.tree (α := ℝ) = .ok (.binary .add (.symbol "x") (.symbol "y")) :=
  Outcome.eq_ok_of_toOption _ _ (by decide +kernel)

theorem dependencies_unknown (m : CompositeMeasurement)
    (hm : ∀ name ∈ ["x", "y"], (unknown name).id ≠ m.id) (tree : Expr Decimal)
    (htree : m.tree (α := ℝ) = .ok tree) (names : List String)
    (hsymbols : tree.freeSymbols = names) (hnames : names ∈ [["x"], ["y"], ["x", "y"]]) :
    formulas.dependencies m = .ok (names.map unknown) := by
  have hx := find?_unknown m hm "x" (by decide)
  have hy := find?_unknown m hm "y" (by decide)
  have hother : ((unknown "x").id = (unknown "y").id) = False := eq_false (by decide)
  rw [Graph.dependencies, htree]
  refine (Outcome.bind_eq_ok _ _ _).mpr ⟨_, rfl, ?_⟩
  rw [hsymbols]
  simp only [List.mem_cons, List.not_mem_nil, or_false] at hnames
  rcases hnames with rfl | rfl | rfl
  all_goals simp [Graph.resolve, hx, hy, hother, pure, Except.pure, bind, Except.bind]

theorem distinctIds_formulas : formulas.DistinctIds := by
  change (formulas.measurements.map Measurement.id).Nodup
  decide

/-- The parts of the sum do not share a number. -/
theorem references_onlyX (other : Measurement ℝ)
    (h : formulas.References (.composite onlyX) other) :
    ¬ formulas.References (.composite onlyY) other := by
  have hx := dependencies_unknown onlyX (by decide) _ tree_onlyX ["x"] rfl (by decide)
  have hy := dependencies_unknown onlyY (by decide) _ tree_onlyY ["y"] rfl (by decide)
  rw [← formulas.mem_dependencies_iff distinctIds_formulas _ _ hx, List.map_singleton,
    List.mem_singleton] at h
  rw [← formulas.mem_dependencies_iff distinctIds_formulas _ _ hy, List.map_singleton,
    List.mem_singleton, h]
  exact fun hsame => absurd (congrArg Measurement.id hsame) (by decide)

/-- The variance of a number as a formula. -/
theorem sampledVariance_only (m : CompositeMeasurement)
    (hm : ∀ name ∈ ["x", "y"], (unknown name).id ≠ m.id)
    (hdepth : formulas.depth (.composite m) = 4) (name : String)
    (htree : m.tree (α := ℝ) = .ok (.symbol name)) (hname : name ∈ ["x", "y"]) :
    sampledVariance m = .ok (some (.number 1)) := by
  have hnames : [name] ∈ [["x"], ["y"], ["x", "y"]] := by simpa using hname
  have hvariance := sampledVariance_eq m hdepth _ htree [name]
    (List.forall_mem_singleton.mpr hname) (dependencies_unknown m hm _ htree _ rfl hnames) 2
    (fun _ => 1)
    (by simp [Expr.ofDecimals, Expr.map, Expr.evaluate, Expr.lookup, bothTwo, Bindings.bind])
    (by simp [Expr.ofDecimals, Expr.map, Expr.differentiate, Expr.evaluate])
  rw [hvariance, List.map_singleton, List.sum_singleton, mul_one]

theorem sampledVariance_sumOfBoth : sampledVariance sumOfBoth = .ok (some (.number 2)) := by
  have hvariance := sampledVariance_eq sumOfBoth (by decide) _ tree_sumOfBoth
    ["x", "y"] (by decide)
    (dependencies_unknown sumOfBoth (by decide) _ tree_sumOfBoth _ rfl (by decide)) (2 + 2)
    (fun _ => 1) rfl
    (by simp [Expr.ofDecimals, Expr.map, Expr.differentiate, Expr.Simplified.add, Expr.evaluate])
  rw [hvariance]
  norm_num

theorem sampledVariance_doubled : sampledVariance doubled = .ok (some (.number 4)) := by
  have hvariance := sampledVariance_eq doubled (by decide) _ tree_doubled ["x"]
    (by decide) (dependencies_unknown doubled (by decide) _ tree_doubled _ rfl (by decide)) (2 * 2)
    (fun _ => 2) (evaluate_doubled 2)
    (List.forall_mem_singleton.mpr slope_doubled)
  rw [hvariance]
  norm_num

/-- The variance of the sum is 1 + 1, and that of the double is 2² · 1. -/
theorem variance_of_parts_formulas :
    ∃ x y sum double : Quantity ℝ, sampledVariance onlyX = .ok (some x) ∧
      sampledVariance onlyY = .ok (some y) ∧ sampledVariance sumOfBoth = .ok (some sum) ∧
      sampledVariance doubled = .ok (some double) ∧ sum.value = x.value + y.value ∧
      double.value = 2 ^ 2 * x.value := by
  have hsymbols : (formulas.measurements.filterMap Measurement.symbol?).Nodup := by decide
  have hstore : ∀ m ∈ formulas.measurements,
      DerivativeStore.Answers (formulas.Asks m) (⟨⟩ : NoMemory ℝ) :=
    fun m _ => DerivativeStore.answers_noMemory (formulas.Asks m) ⟨⟩
  have hmem : .composite sumOfBoth ∈ formulas.measurements ∧
      .composite doubled ∈ formulas.measurements ∧ .composite onlyX ∈ formulas.measurements ∧
        .composite onlyY ∈ formulas.measurements := by
    simp [formulas]
  rcases hmem with ⟨hsum, hdouble, hx, hy⟩
  have hvarianceX := sampledVariance_only onlyX (by decide) (by decide) "x" tree_onlyX
    (by decide)
  have hvarianceY := sampledVariance_only onlyY (by decide) (by decide) "y" tree_onlyY
    (by decide)
  have htwo : (Expr.ofDecimals (.number ⟨2, 0⟩)).evaluate (α := ℝ) Bindings.empty =
      .ok (.number 2) := congrArg (fun x => Except.ok (Quantity.number x)) (RealScalar.ofNat_eq 2)
  have hparts := variance_of_parts (⟨Bindings.empty, ⟨⟩⟩ : Propagator (NoMemory ℝ) ℝ)
    formulas.measurements distinctIds_formulas hsymbols { typeB := false } hstore
  refine ⟨_, _, _, _, hvarianceX, hvarianceY, sampledVariance_sumOfBoth, sampledVariance_doubled,
    ?_, ?_⟩
  · exact (hparts sumOfBoth onlyX hsum hx _ tree_onlyX _ _ sampledVariance_sumOfBoth
      hvarianceX).1 .add onlyY _ _ (Or.inl rfl) hy tree_onlyY tree_sumOfBoth hvarianceY
        references_onlyX
  · exact (hparts doubled onlyX hdouble hx _ tree_onlyX _ _ sampledVariance_doubled
      hvarianceX).2 _ _ tree_doubled (by simp [Expr.freeSymbols, Expr.collectSymbols]) htwo

end Example

end Propagator

end Metrology
