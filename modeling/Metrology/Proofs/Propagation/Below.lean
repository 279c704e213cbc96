import Mathlib.Algebra.BigOperators.Group.Finset.Basic
import Mathlib.Data.Finset.Union
import Metrology.Proofs.Expr.ChainRule
import Metrology.Proofs.Propagation.Inlining

/-!
# What is below a measurement

The direct measurements that a measurement depends on, in any number of steps.
Their symbols are what is left of measurements in an inlined formula.

A sum over them can be taken dependency by dependency, if no measurement is
reached in two ways: then no direct measurement is below two dependencies of the
same formula.

## Main definitions

* `Graph.TreeShaped`: Everything below a measurement is reached in one way.
* `Graph.directsBelow`: The direct measurements below a measurement.
* `Graph.Stands`: What stands for a measurement in an inlined formula.

## Theorems

* `Graph.dependencies_nodup`: No dependency is listed twice.
* `Graph.TreeShaped.eq_of_reaches`: Two dependencies have nothing below in common.
* `Graph.sum_directsBelow`: A sum over what is below, by dependencies.
* `Graph.Stands.mentions_iff`: An inlined formula mentions the symbols of what is
  below.
-/

namespace Metrology

namespace Graph

variable {α : Type}

section Walks

/-- What is reached is reached by a walk. -/
theorem exists_walk (g : Graph α) (start m : Measurement α) (h : g.Reaches start m) :
    ∃ path, g.Walk start path m := by
  induction h with
  | refl => exact ⟨[], .here⟩
  | @tail between last _ href ih =>
      rcases ih with ⟨path, hwalk⟩
      -- Only composite measurements mention others.
      cases between with
      | direct d => exact href.elim
      | composite c => exact ⟨path ++ [c], .step path c last hwalk href⟩

/-- Walks can be put in sequence. -/
theorem Walk.append (g : Graph α) (start m last : Measurement α)
    (path rest : List CompositeMeasurement) (h : g.Walk start path m)
    (hrest : g.Walk m rest last) : g.Walk start (path ++ rest) last := by
  induction hrest with
  | here => exact (List.append_nil path).symm ▸ h
  | step rest c next _ href ih =>
      rw [← List.append_assoc]
      exact .step (path ++ rest) c next ih href

/-- A walk has no steps, or it begins with the measurement it starts at. -/
theorem Walk.cases_head (g : Graph α) (start m : Measurement α) (path : List CompositeMeasurement)
    (h : g.Walk start path m) :
    (path = [] ∧ start = m) ∨ ∃ c rest, start = .composite c ∧ path = c :: rest := by
  induction h with
  | here => exact Or.inl ⟨rfl, rfl⟩
  | step path c next _ _ ih =>
      rcases ih with ⟨rfl, hstart⟩ | ⟨first, rest, hstart, rfl⟩
      · exact Or.inr ⟨c, [], hstart, rfl⟩
      · exact Or.inr ⟨first, rest ++ [c], hstart, rfl⟩

/-- Everything that is reached is reached by one walk. -/
def TreeShaped (g : Graph α) (start : Measurement α) : Prop :=
  ∀ m, g.Reaches start m → ∃! path, g.Walk start path m

/-- No measurement is below two dependencies of the same formula. -/
theorem TreeShaped.eq_of_reaches (g : Graph α) (start : Measurement α) (h : g.TreeShaped start)
    (c : CompositeMeasurement) (first second m : Measurement α)
    (hreaches : g.Reaches start (.composite c)) (hfirst : g.References (.composite c) first)
    (hsecond : g.References (.composite c) second) (hm : g.Reaches first m)
    (hm' : g.Reaches second m) : first = second := by
  rcases g.exists_walk start _ hreaches with ⟨path, hpath⟩
  rcases g.exists_walk first m hm with ⟨p, hp⟩
  rcases g.exists_walk second m hm' with ⟨q, hq⟩
  have hsame : path ++ [c] ++ p = path ++ [c] ++ q :=
    (h m ((hreaches.tail hfirst).trans hm)).unique
      (Walk.append g _ _ _ _ p (.step path c first hpath hfirst) hp)
      (Walk.append g _ _ _ _ q (.step path c second hpath hsecond) hq)
  rw [List.append_cancel_left_eq] at hsame
  subst hsame
  -- The dependency that a walk starts at can be read off it.
  rcases hp.cases_head with ⟨rfl, hfirst⟩ | ⟨c', rest, hfirst, rfl⟩
  · rcases hq.cases_head with ⟨-, hsecond⟩ | ⟨c', rest, -, hempty⟩
    · rw [hfirst, hsecond]
    · cases hempty
  · rcases hq.cases_head with ⟨hempty, -⟩ | ⟨c'', rest', hsecond, hcons⟩
    · cases hempty
    · rw [hfirst, hsecond, (List.cons.inj hcons).1]

end Walks

section Below

/-- No dependency is listed twice. -/
theorem dependencies_nodup (g : Graph α) (m : CompositeMeasurement)
    (dependencies : List (Measurement α)) (h : g.dependencies m = .ok dependencies) :
    dependencies.Nodup := by
  rw [Graph.dependencies, Outcome.bind_eq_ok] at h
  rcases h with ⟨tree, -, h⟩
  refine Outcome.foldlM_keeps List.Nodup (g.resolve m) tree.freeSymbols ?_ [] dependencies
    List.nodup_nil h
  intro found symbol next _ hfound hstep
  rw [resolve] at hstep
  cases hfind : g.find? m symbol with
  | some dependency =>
      rw [hfind, Except.ok.injEq] at hstep
      rw [← hstep]
      split
      · exact hfound
      · next hnew =>
        refine List.Nodup.append hfound (List.nodup_singleton _) ?_
        rw [List.disjoint_singleton]
        exact fun hmem => hnew (List.any_eq_true.mpr ⟨dependency, hmem, decide_eq_true rfl⟩)
  | none =>
      rw [hfind] at hstep
      simp only at hstep
      split at hstep
      · cases hstep
      · split at hstep
        · exact Except.ok.inj hstep ▸ hfound
        · cases hstep

open Classical in
/-- The direct measurements below a measurement. -/
noncomputable def directsBelow (g : Graph α) (m : Measurement α) : Finset (DirectMeasurement α) :=
  (g.measurements.filterMap fun
    | .direct d => some d
    | .composite _ => none).toFinset.filter fun d => g.Reaches m (.direct d)

open Classical in
theorem mem_directsBelow (g : Graph α) (m : Measurement α) (hm : m ∈ g.measurements)
    (d : DirectMeasurement α) : d ∈ g.directsBelow m ↔ g.Reaches m (.direct d) := by
  rw [directsBelow, Finset.mem_filter, List.mem_toFinset, List.mem_filterMap, and_iff_right_iff_imp]
  exact fun h => ⟨.direct d, h.mem g _ _ hm, rfl⟩

/-- Only itself is below a direct measurement. -/
theorem directsBelow_direct (g : Graph α) (d : DirectMeasurement α)
    (hd : .direct d ∈ g.measurements) : g.directsBelow (.direct d) = {d} := by
  ext other
  rw [mem_directsBelow g _ hd, Finset.mem_singleton]
  constructor
  · intro h
    rcases Relation.ReflTransGen.cases_head h with hsame | ⟨next, href, -⟩
    · exact (Measurement.direct.inj hsame).symm
    · exact href.elim
  · rintro rfl
    exact .refl

/-- A sum over the direct measurements below a composite one is a sum over its
    dependencies of what is below each. -/
theorem sum_directsBelow (g : Graph α) (hids : g.DistinctIds) (start : Measurement α)
    (hstart : start ∈ g.measurements) (htree : g.TreeShaped start) (c : CompositeMeasurement)
    (hreaches : g.Reaches start (.composite c)) (dependencies : List (Measurement α))
    (hdependencies : g.dependencies c = .ok dependencies) (f : DirectMeasurement α → ℝ) :
    ∑ d ∈ g.directsBelow (.composite c), f d =
      (dependencies.map fun dependency => ∑ d ∈ g.directsBelow dependency, f d).sum := by
  classical
  have href := g.mem_dependencies_iff hids c dependencies hdependencies
  have hmem : ∀ dependency ∈ dependencies, dependency ∈ g.measurements :=
    fun dependency h => ((href dependency).mp h).mem
  have hunion : g.directsBelow (.composite c) = dependencies.toFinset.biUnion g.directsBelow := by
    ext d
    rw [mem_directsBelow g _ (hreaches.mem g _ _ hstart), Finset.mem_biUnion]
    constructor
    · intro h
      rcases Relation.ReflTransGen.cases_head h with hsame | ⟨next, hnext, hd⟩
      · cases hsame
      · have hdependency := (href next).mpr hnext
        exact ⟨next, List.mem_toFinset.mpr hdependency,
          (mem_directsBelow g next (hmem next hdependency) d).mpr hd⟩
    · rintro ⟨dependency, hdependency, hd⟩
      rw [List.mem_toFinset] at hdependency
      exact .head ((href dependency).mp hdependency)
        ((mem_directsBelow g dependency (hmem dependency hdependency) d).mp hd)
  rw [hunion, Finset.sum_biUnion, List.sum_toFinset _ (g.dependencies_nodup c dependencies
    hdependencies)]
  -- What is below two different dependencies has nothing in common.
  intro first hfirst second hsecond hdiffer
  have hfirst := List.mem_toFinset.mp hfirst
  have hsecond := List.mem_toFinset.mp hsecond
  rw [Function.onFun, Finset.disjoint_left]
  intro d hd hd'
  rw [mem_directsBelow g first (hmem first hfirst)] at hd
  rw [mem_directsBelow g second (hmem second hsecond)] at hd'
  exact hdiffer (htree.eq_of_reaches g start c first second _ hreaches ((href first).mp hfirst)
    ((href second).mp hsecond) hd hd')

end Below

section Inlined

/-- What stands for a measurement in an inlined formula: the symbol of a direct one, the
    inlined formula of a composite one. -/
inductive Stands (g : Graph α) : Measurement α → Expr Decimal → Prop
  | direct (d : DirectMeasurement α) (symbol : String) (hsymbol : d.name.symbol? = some symbol) :
      Stands g (.direct d) (.symbol symbol)
  | composite (c : CompositeMeasurement) (inlined : Expr Decimal) (h : g.Inlines c inlined) :
      Stands g (.composite c) inlined

/-- What replaces a symbol that means a measurement stands for that measurement. -/
theorem stands_of_find? (g : Graph α) (m : CompositeMeasurement) (symbol : String)
    (other : Measurement α) (part : String → Expr Decimal)
    (hkept : (∀ c, g.find? m symbol ≠ some (.composite c)) → part symbol = .symbol symbol)
    (hinlined : ∀ c, g.find? m symbol = some (.composite c) → g.Inlines c (part symbol))
    (hfind : g.find? m symbol = some other) : g.Stands other (part symbol) := by
  cases other with
  | direct d =>
      rw [hkept (fun c hc => by rw [hfind] at hc; cases hc)]
      exact .direct d symbol (g.find?_eq_some m symbol _ hfind).2.1
  | composite c => exact .composite c _ (hinlined c hfind)

variable (g : Graph α) (hids : g.DistinctIds) (hsymbols : g.DistinctSymbols)
  (d : DirectMeasurement α) (hd : .direct d ∈ g.measurements) (symbol : String)
  (hsymbol : d.name.symbol? = some symbol)

include hids hsymbols hd hsymbol in
/-- Inside of every composite measurement, the symbol of a direct one means that. -/
theorem find?_direct (m : CompositeMeasurement) (hm : .composite m ∈ g.measurements) :
    g.find? m symbol = some (.direct d) := by
  cases hfind : g.find? m symbol with
  | none =>
      -- The direct measurement would be found.
      refine absurd hsymbol ((g.find?_eq_none m symbol).mp hfind (.direct d) hd (fun hid => ?_))
      cases hids.eq_of_id g (.direct d) (.composite m) hd hm hid
  | some other =>
      have hother := g.find?_eq_some m symbol other hfind
      exact congrArg some (hsymbols.eq_of_symbol g other (.direct d) hother.1 hd symbol
        hother.2.1 hsymbol)

include hids hsymbols hd hsymbol in
/-- An inlined formula mentions the symbol of a direct measurement if that is below. -/
theorem Inlines.mentions_iff (m : CompositeMeasurement) (inlined : Expr Decimal)
    (hm : .composite m ∈ g.measurements) (h : g.Inlines m inlined) :
    inlined.mentions symbol = true ↔ g.Reaches (.composite m) (.direct d) := by
  induction h with
  | formula m tree part htree hkept hinlined ih =>
      have hmem : ∀ c name, g.find? m name = some (.composite c) → .composite c ∈ g.measurements :=
        fun c name hfind => (g.find?_eq_some m name _ hfind).1
      rw [Expr.mentions_substitute]
      constructor
      · -- The symbol comes in with the replacement of a name: with a formula, or as itself.
        rintro ⟨name, hname, hmentions⟩
        rw [← Expr.mem_freeSymbols] at hname
        by_cases hcomposite : ∃ c, g.find? m name = some (.composite c)
        · rcases hcomposite with ⟨c, hfind⟩
          exact .head ⟨tree, htree, name, hname, hfind⟩
            ((ih name hname c hfind (hmem c name hfind)).mp hmentions)
        · have hnot : ∀ c, g.find? m name ≠ some (.composite c) :=
            fun c hfind => hcomposite ⟨c, hfind⟩
          rw [hkept name hname hnot] at hmentions
          have hsame : name = symbol := of_decide_eq_true hmentions
          subst hsame
          exact .single ⟨tree, htree, name, hname,
            find?_direct g hids hsymbols d hd name hsymbol m hm⟩
      · intro hreaches
        rcases Relation.ReflTransGen.cases_head hreaches with hsame | ⟨next, href, hrest⟩
        · cases hsame
        · rcases href with ⟨tree', htree', name, hname, hfind⟩
          rw [htree, Except.ok.injEq] at htree'
          subst htree'
          refine ⟨name, (Expr.mem_freeSymbols name tree).mp hname, ?_⟩
          cases next with
          | composite c => exact (ih name hname c hfind (hmem c name hfind)).mpr hrest
          | direct other =>
              rw [hkept name hname (fun c hc => by rw [hfind] at hc; cases hc)]
              -- Nothing but itself is reached from a direct measurement.
              rcases Relation.ReflTransGen.cases_head hrest with hsame | ⟨_, hnone, -⟩
              · rw [hsame] at hfind
                have hfound : d.name.symbol? = some name := (g.find?_eq_some m name _ hfind).2.1
                rw [hsymbol, Option.some.injEq] at hfound
                exact decide_eq_true hfound.symm
              · exact hnone.elim

include hids hsymbols hd hsymbol in
/-- What stands for a measurement mentions the symbol of a direct measurement if that is
    below. -/
theorem Stands.mentions_iff (m : Measurement α) (tree : Expr Decimal) (hm : m ∈ g.measurements)
    (h : g.Stands m tree) : tree.mentions symbol = true ↔ g.Reaches m (.direct d) := by
  cases h with
  | composite c inlined h => exact h.mentions_iff g hids hsymbols d hd symbol hsymbol c _ hm
  | direct other name hname =>
      rw [← g.mem_directsBelow _ hm, g.directsBelow_direct other hm, Finset.mem_singleton,
        Expr.mentions, decide_eq_true_eq]
      constructor
      · rintro rfl
        exact (Measurement.direct.inj (hsymbols.eq_of_symbol g (.direct other) (.direct d) hm hd
          name hname hsymbol)).symm
      · rintro rfl
        exact Option.some.inj (hname.symm.trans hsymbol)

end Inlined

end Graph

end Metrology
