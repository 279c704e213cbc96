import Metrology.Proofs.Propagation.Agreement
import Metrology.Proofs.Propagation.Below
import Metrology.Proofs.Propagation.Measured

/-!
# Inlined formulas as measurements

The formula that a composite measurement comes to once everything is inlined can be given to
a measurement of its own. It mentions no composite measurement any more. Every symbol that is
left stands, somewhere below, for a direct measurement or for a constant, and it stands for
the same inside of the new measurement: distinct symbols leave no other choice.

So the same direct measurements are below, each reached in one step, and the new measurement
is its own inlined formula. A missing variance is out of the question for it, if the other one
has a variance: every direct measurement below has a mean.

## Main definitions

* `Graph.Flattens`: A measurement with the inlined formula of another one.

## Theorems

* `Graph.Inlines.origin`: Where a symbol of an inlined formula comes from.
* `Graph.Flattens.inlines_self`, `Graph.Flattens.reaches_iff`, `Graph.Flattens.treeShaped`: What is
  below a flattened measurement.
* `Graph.Flattens.overlays`: The means below are those below the other one.
* `Propagator.combinedVariance_ne_none`: With means below, no variance is missing.
-/

namespace Metrology

variable {α : Type}

namespace Graph

/-- A measurement whose formula is the inlined formula of another one. -/
structure Flattens (g : Graph α) (flat m : CompositeMeasurement) (inlined : Expr Decimal) :
    Prop where
  mem : .composite flat ∈ g.measurements
  inlines : g.Inlines m inlined
  tree_eq : flat.tree (α := α) = .ok inlined

/-- A symbol of an inlined formula comes from a formula below, and means no composite
    measurement there. -/
theorem Inlines.origin (g : Graph α) (m : CompositeMeasurement) (inlined : Expr Decimal)
    (h : g.Inlines m inlined) (symbol : String) (hsymbol : inlined.mentions symbol = true) :
    ∃ c tree, g.Reaches (.composite m) (.composite c) ∧ c.tree (α := α) = .ok tree ∧
      symbol ∈ tree.freeSymbols ∧ ∀ other, g.find? c symbol ≠ some (.composite other) := by
  induction h with
  | formula m tree part htree hkept _ ih =>
      rcases (Expr.mentions_substitute part symbol tree).mp hsymbol with ⟨name, hname, hpart⟩
      have hfree := (Expr.mem_freeSymbols name tree).mpr hname
      by_cases hcomposite : ∃ c, g.find? m name = some (.composite c)
      · rcases hcomposite with ⟨c, hfind⟩
        rcases ih name hfree c hfind hpart with ⟨origin, formula, hreaches, hrest⟩
        exact ⟨origin, formula, .head ⟨tree, htree, name, hfree, hfind⟩ hreaches, hrest⟩
      · have hnot : ∀ c, g.find? m name ≠ some (.composite c) := not_exists.mp hcomposite
        rw [hkept name hfree hnot] at hpart
        have hsame : name = symbol := of_decide_eq_true hpart
        exact ⟨m, tree, .refl, htree, hsame ▸ hfree, hsame ▸ hnot⟩

section References

variable (g : Graph α) (flat : CompositeMeasurement)
  (hdirect : ∀ other, g.References (.composite flat) other → ∃ d, other = .direct d)

include hdirect

/-- Walks from a measurement that mentions direct measurements only. -/
theorem walk_of_direct (path : List CompositeMeasurement) (other : Measurement α)
    (h : g.Walk (.composite flat) path other) :
    (path = [] ∧ other = .composite flat) ∨ (path = [flat] ∧ ∃ d, other = .direct d) := by
  induction h with
  | here => exact Or.inl ⟨rfl, rfl⟩
  | step path c next _ href ih =>
      rcases ih with ⟨rfl, hflat⟩ | ⟨-, d, hd⟩
      · rw [Measurement.composite.injEq] at hflat
        rw [hflat] at href
        exact Or.inr ⟨by rw [hflat]; rfl, hdirect next href⟩
      · cases hd

/-- What such a measurement mentions is reached in one way. -/
theorem treeShaped_of_direct : g.TreeShaped (.composite flat) := by
  intro other hreaches
  rcases g.exists_walk _ _ hreaches with ⟨path, hpath⟩
  refine ⟨path, hpath, fun path' hpath' => ?_⟩
  rcases g.walk_of_direct flat hdirect path other hpath with ⟨rfl, hother⟩ | ⟨rfl, d, hother⟩
  · rcases g.walk_of_direct flat hdirect path' other hpath' with ⟨hempty, -⟩ | ⟨-, d, hd⟩
    · exact hempty
    · rw [hother] at hd
      cases hd
  · rcases g.walk_of_direct flat hdirect path' other hpath' with ⟨-, hflat⟩ | ⟨hpath, -⟩
    · rw [hother] at hflat
      cases hflat
    · exact hpath

end References

namespace Flattens

variable (g : Graph α) (hids : g.DistinctIds) (hsymbols : g.DistinctSymbols)
  (flat m : CompositeMeasurement) (inlined : Expr Decimal) (h : g.Flattens flat m inlined)
  (hm : .composite m ∈ g.measurements) (hsettled : g.Settled (.composite m))

include hids hsymbols h hm hsettled

/-- No symbol of the formula means a composite measurement. -/
theorem find?_ne_composite (symbol : String) (hsymbol : inlined.mentions symbol = true)
    (other : CompositeMeasurement) : g.find? flat symbol ≠ some (.composite other) := by
  intro hfind
  rcases g.find?_eq_some flat symbol _ hfind with ⟨hother, hcarries, -⟩
  rcases h.inlines.origin g m inlined symbol hsymbol with
    ⟨c, tree, hreaches, htree, hfree, hnot⟩
  cases horigin : g.find? c symbol with
  | some found =>
      -- The symbol was found where it comes from, and another measurement cannot carry it.
      rcases g.find?_eq_some c symbol found horigin with ⟨hfound, hsame, -⟩
      rw [hsymbols.eq_of_symbol g found _ hfound hother symbol hsame hcarries] at horigin
      exact hnot other horigin
  | none =>
      -- Only the measurement itself could carry it there, but that would refer to itself.
      have hid : (Measurement.composite (α := α) other).id = (Measurement.composite (α := α) c).id := by
        by_contra hdiffer
        exact (g.find?_eq_none c symbol).mp horigin _ hother hdiffer hcarries
      have hc := hids.eq_of_id g _ _ hother (hreaches.mem g _ _ hm) hid
      rw [hc] at hcarries
      rcases (hsettled.of_reaches g hids _ _ hreaches).resolves with ⟨dependencies, hdependencies⟩
      rcases g.dependencies_eq_ok hids c dependencies hdependencies with
        ⟨tree', htree', hresolved, -⟩
      rw [htree, Except.ok.injEq] at htree'
      exact (hresolved symbol (htree' ▸ hfree) horigin).1 hcarries

/-- The formula is its own inlined formula. -/
theorem inlines_self : g.Inlines flat inlined := by
  have hself : g.Inlines flat (inlined.substitute .symbol) :=
    .formula flat inlined .symbol h.tree_eq (fun _ _ _ => rfl) fun symbol hsymbol c hfind =>
      absurd hfind (h.find?_ne_composite g hids hsymbols flat m inlined hm hsettled symbol
        ((Expr.mem_freeSymbols symbol inlined).mp hsymbol) c)
  rwa [Expr.substitute_symbol] at hself

/-- The same direct measurements are below. -/
theorem reaches_iff (d : DirectMeasurement α) :
    g.Reaches (.composite flat) (.direct d) ↔ g.Reaches (.composite m) (.direct d) := by
  have hself := h.inlines_self g hids hsymbols flat m inlined hm hsettled
  constructor
  · intro hreaches
    have hd := hreaches.mem g _ _ h.mem
    rcases g.symbol_of_reaches flat d hreaches with ⟨symbol, hsymbol⟩
    exact (h.inlines.mentions_iff g hids hsymbols d hd symbol hsymbol m inlined hm).mp
      ((hself.mentions_iff g hids hsymbols d hd symbol hsymbol flat inlined h.mem).mpr hreaches)
  · intro hreaches
    have hd := hreaches.mem g _ _ hm
    rcases g.symbol_of_reaches m d hreaches with ⟨symbol, hsymbol⟩
    exact (hself.mentions_iff g hids hsymbols d hd symbol hsymbol flat inlined h.mem).mp
      ((h.inlines.mentions_iff g hids hsymbols d hd symbol hsymbol m inlined hm).mpr hreaches)

/-- Each of them is reached in one way. -/
theorem treeShaped : g.TreeShaped (.composite flat) := by
  refine g.treeShaped_of_direct flat fun other href => ?_
  rcases href with ⟨tree, htree, symbol, hsymbol, hfind⟩
  rw [h.tree_eq, Except.ok.injEq] at htree
  subst htree
  cases other with
  | direct d => exact ⟨d, rfl⟩
  | composite c =>
      exact absurd hfind (h.find?_ne_composite g hids hsymbols flat m inlined hm hsettled symbol
        ((Expr.mem_freeSymbols symbol inlined).mp hsymbol) c)

variable [Scalar α]

/-- The overlay of the constants is the same. -/
theorem overlays (bound : Bindings α) (hoverlays : g.Overlays (.composite m) bound) :
    g.Overlays (.composite flat) bound := by
  have hreaches := h.reaches_iff g hids hsymbols flat m inlined hm hsettled
  exact ⟨fun d hd => hoverlays.measured d ((hreaches d).mp hd), fun symbol hnone =>
    hoverlays.constant symbol fun d hd => hnone d ((hreaches d).mpr hd)⟩

/-- What is below has means. -/
theorem measured (hmeasured : g.Measured (.composite m)) : g.Measured (.composite flat) :=
  fun d hd => hmeasured d ((h.reaches_iff g hids hsymbols flat m inlined hm hsettled d).mp hd)

end Flattens

/-- A mean is missing only where the mean of a direct measurement below is. -/
theorem Measured.not_missing [Scalar α] (g : Graph α) (hids : g.DistinctIds) (m : Measurement α)
    (v : Option (Quantity α)) (h : g.HasMean m v) (hmeasured : g.Measured m) : v ≠ none := by
  induction h with
  | direct d v h =>
      rintro rfl
      rcases hmeasured d .refl with ⟨q, hq⟩
      rw [h] at hq
      cases hq
  | missing m tree found dependency rest _ hdependencies _ _ _ ih =>
      have href := (g.mem_dependencies_iff hids m _ hdependencies dependency).mp
        (List.mem_append_right _ List.mem_cons_self)
      exact absurd rfl (ih fun d hd => hmeasured d (.head href hd))
  | present => exact nofun

end Graph

namespace Propagator

open Evaluation

variable {σ : Type} [Scalar α] [DerivativeStore σ α]

/-- With means everywhere below, no variance is missing. -/
theorem combinedVariance_ne_none (p : Propagator σ α) (all : List (Measurement α))
    (hids : (p.graph all).DistinctIds) (m : Measurement α) (hm : m ∈ all)
    (types : UncertaintyTypes) (hmeasured : (p.graph all).Measured m) :
    ((Propagator.combinedVariance m all types).run p).1 ≠ .ok none := by
  intro h
  have hmissing : (p.graph all).HasMean m none :=
    (combinedVariance_recomputes _ hids m types _ [] m (.start (p.graph all) m hm)
      (Nat.le_add_left _ _) (.fresh p.store) (.fresh p.store)
      (.fresh (Meets.follows_fresh p.store))).2.1 none h rfl
  exact Graph.Measured.not_missing _ hids m none hmissing hmeasured rfl

end Propagator

end Metrology
