import Mathlib.Data.List.Forall2
import Metrology.Proofs.Propagation.Graph

/-!
# Graphs that correspond

Two graphs that an evaluation cannot tell apart. Their measurements are related such that
related ones have the same identifiers and symbols, composite ones are the same, and a
symbol of a related formula means related measurements in both graphs, or none in either.
Then formulas have related dependencies, and a computation that asks for nothing but the
dependencies is one and the same in both graphs: not only are the outcomes equal, but the
computations themselves. So nothing has to be said about the contexts they run in.

What is read off direct measurements differs from question to question. Means, variances
and counts of digits are therefore shown to agree for relations that keep what the
question in hand reads.

## Main definitions

* `Graph.Corresponds`: Two graphs with related measurements.

## Theorems

* `Graph.Corresponds.dependencies`: Related formulas have related dependencies.
* `Graph.Corresponds.descend`: What descends into dependencies is one computation, if its
  steps are.
* `Graph.Corresponds.mean_eq`, `Graph.Corresponds.combinedVariance_eq`,
  `Graph.Corresponds.minDigits_eq`: The computations are the same.
-/

namespace Metrology.Graph

variable {σ α β : Type}

/-- Two graphs whose measurements are related. -/
structure Corresponds (g g' : Graph α) (rel : Measurement α → Measurement α → Prop) : Prop where
  constants : g'.constants = g.constants
  id_eq : ∀ m m', rel m m' → m'.id = m.id
  symbol_eq : ∀ m m', rel m m' → m'.symbol? = m.symbol?
  direct : ∀ m m', rel (.direct m) m' → ∃ other, m' = .direct other
  composite : ∀ m m', rel (.composite m) m' → m' = .composite m
  found : ∀ m tree symbol, rel (.composite m) (.composite m) → m.tree (α := α) = .ok tree →
    symbol ∈ tree.freeSymbols → Option.Rel rel (g.find? m symbol) (g'.find? m symbol)

namespace Corresponds

variable {g g' : Graph α} {rel : Measurement α → Measurement α → Prop}
  (h : g.Corresponds g' rel)

section Dependencies

include h

/-- Related measurements are found under the same identifiers. -/
theorem any_id (ms ms' : List (Measurement α)) (hms : List.Forall₂ rel ms ms') (id : RecordId) :
    ms'.any (·.id = id) = ms.any (·.id = id) := by
  induction hms with
  | nil => rfl
  | cons hm _ ih => rw [List.any_cons, List.any_cons, ih, h.id_eq _ _ hm]

/-- What one symbol adds is related. -/
theorem resolve (m : CompositeMeasurement) (tree : Expr Decimal) (symbol : String)
    (hm : rel (.composite m) (.composite m)) (htree : m.tree (α := α) = .ok tree)
    (hsymbol : symbol ∈ tree.freeSymbols) (found found' : List (Measurement α))
    (hfound : List.Forall₂ rel found found') :
    Outcome.Agree (List.Forall₂ rel) Eq (g.resolve m found symbol) (g'.resolve m found' symbol) := by
  have hfind := h.found m tree symbol hm htree hsymbol
  rw [Graph.resolve, Graph.resolve, h.constants]
  cases hother : g.find? m symbol with
  | none =>
      rw [hother] at hfind
      rcases hother' : g'.find? m symbol with _ | other'
      · -- Neither graph has a measurement of the symbol, and the rest is the same test.
        simp only
        split
        · exact rfl
        · split
          · exact hfound
          · exact rfl
      · rw [hother'] at hfind
        cases hfind
  | some other =>
      rw [hother] at hfind
      rcases hother' : g'.find? m symbol with _ | other'
      · rw [hother'] at hfind
        cases hfind
      · rw [hother'] at hfind
        cases hfind with
        | some hrel =>
            simp only
            rw [h.any_id found found' hfound other'.id, h.id_eq _ _ hrel]
            split
            · exact hfound
            · exact List.rel_append hfound (.cons hrel .nil)

/-- What several symbols add is related. -/
theorem foldlM_resolve (m : CompositeMeasurement) (tree : Expr Decimal)
    (hm : rel (.composite m) (.composite m)) (htree : m.tree (α := α) = .ok tree)
    (symbols : List String) (hsymbols : symbols ⊆ tree.freeSymbols) :
    ∀ found found', List.Forall₂ rel found found' →
      Outcome.Agree (List.Forall₂ rel) Eq (symbols.foldlM (g.resolve m) found)
        (symbols.foldlM (g'.resolve m) found') := by
  induction symbols with
  | nil => exact fun found found' hfound => hfound
  | cons symbol rest ih =>
      intro found found' hfound
      rcases List.cons_subset.mp hsymbols with ⟨hsymbol, hrest⟩
      rw [List.foldlM_cons, List.foldlM_cons]
      rcases (h.resolve m tree symbol hm htree hsymbol found found' hfound).elim with
        ⟨next, next', hnext, hnext', hrel⟩ | ⟨e, e', he, he', rfl⟩
      · rw [hnext, hnext']
        exact ih hrest next next' hrel
      · rw [he, he']
        exact rfl

/-- Related formulas have related dependencies, or fail to resolve for one reason. -/
theorem dependencies (m : CompositeMeasurement) (hm : rel (.composite m) (.composite m)) :
    Outcome.Agree (List.Forall₂ rel) Eq (g.dependencies m) (g'.dependencies m) := by
  rw [Graph.dependencies, Graph.dependencies]
  cases htree : m.tree (α := α) with
  | error e => exact rfl
  | ok tree => exact h.foldlM_resolve m tree hm htree _ (List.Subset.refl _) [] [] .nil

/-- What follows the dependencies of a formula is one computation, if it is for related
    dependencies. -/
theorem dependencies_bind (m : CompositeMeasurement) (hm : rel (.composite m) (.composite m))
    (f f' : List (Measurement α) → Evaluation σ α β)
    (hf : ∀ ms ms', List.Forall₂ rel ms ms' → f' ms' = f ms) :
    (Evaluation.ofExcept (g'.dependencies m) >>= f') =
      (Evaluation.ofExcept (g.dependencies m) >>= f) := by
  rcases (h.dependencies m hm).elim with ⟨ms, ms', hdeps, hdeps', hrel⟩ | ⟨e, e', he, he', rfl⟩
  · rw [hdeps, hdeps']
    exact hf ms ms' hrel
  · rw [he, he']
    rfl

/-- A computation that descends into dependencies is the same for related measurements,
    if it is for direct ones, where the descent ends, and in one step of the descent. -/
theorem descend (f f' : Nat → Measurement α → Evaluation σ α β)
    (hdirect : ∀ fuel d d', rel (.direct d) (.direct d') →
      f' fuel (.direct d') = f fuel (.direct d))
    (hend : ∀ m, f' 0 (.composite m) = f 0 (.composite m))
    (hstep : ∀ fuel m, rel (.composite m) (.composite m) →
      (∀ m m', rel m m' → f' fuel m' = f fuel m) →
        f' (fuel + 1) (.composite m) = f (fuel + 1) (.composite m)) (fuel : Nat) :
    ∀ m m', rel m m' → f' fuel m' = f fuel m := by
  induction fuel with
  | zero =>
      intro m m' hm
      cases m with
      | direct d =>
          rcases h.direct d m' hm with ⟨d', rfl⟩
          exact hdirect 0 d d' hm
      | composite m =>
          rw [h.composite m m' hm]
          exact hend m
  | succ fuel ih =>
      intro m m' hm
      cases m with
      | direct d =>
          rcases h.direct d m' hm with ⟨d', rfl⟩
          exact hdirect (fuel + 1) d d' hm
      | composite m =>
          have hsame := h.composite m m' hm
          subst hsame
          exact hstep fuel m hm ih

end Dependencies

section Means

include h

/-- The means of related measurements are bound to the same symbols. -/
theorem bindMeans_eq (meanOf meanOf' : Measurement α → Evaluation σ α (Option (Quantity α)))
    (hmean : ∀ m m', rel m m' → meanOf' m' = meanOf m) (ms ms' : List (Measurement α))
    (hms : List.Forall₂ rel ms ms') :
    ∀ bound, Evaluation.bindMeans meanOf' ms' bound = Evaluation.bindMeans meanOf ms bound := by
  induction hms with
  | nil => exact fun bound => rfl
  | cons hm _ ih =>
      intro bound
      rw [Evaluation.bindMeans, Evaluation.bindMeans, hmean _ _ hm, h.symbol_eq _ _ hm]
      simp only [ih]

theorem bindings_eq (meanOf meanOf' : Measurement α → Evaluation σ α (Option (Quantity α)))
    (hmean : ∀ m m', rel m m' → meanOf' m' = meanOf m) (m : CompositeMeasurement)
    (hm : rel (.composite m) (.composite m)) :
    Evaluation.bindings g' meanOf' m = Evaluation.bindings g meanOf m := by
  rw [Evaluation.bindings, Evaluation.bindings, h.constants]
  exact h.dependencies_bind m hm _ _ fun ms ms' hms =>
    h.bindMeans_eq meanOf meanOf' hmean ms ms' hms g.constants

variable [Scalar α]

/-- The means of related measurements are one computation, if those of direct ones are. -/
theorem mean_eq (hdirect : ∀ d d', rel (.direct d) (.direct d') →
      Evaluation.directMean d' = Evaluation.directMean d) (fuel : Nat) :
    ∀ m m', rel m m' → Evaluation.mean (σ := σ) g' fuel m' = Evaluation.mean g fuel m := by
  refine h.descend _ _ (fun fuel d d' hd => ?_) (fun m => ?_) (fun fuel m hm ih => ?_) fuel
  · have hid : d'.id = d.id := h.id_eq _ _ hd
    rw [Evaluation.mean, Evaluation.mean, hdirect d d' hd, hid]
  · rw [Evaluation.mean, Evaluation.mean]
  · rw [Evaluation.mean, Evaluation.mean, Evaluation.compositeMean, Evaluation.compositeMean,
      h.bindings_eq _ _ ih m hm]

end Means

section Variances

variable [Scalar α] [DerivativeStore σ α]

include h

/-- The terms of related dependencies are one computation. -/
theorem addTerms_eq (tree : Expr α) (bound : Bindings α)
    (varianceOf varianceOf' : Measurement α → Evaluation σ α (Option (Quantity α)))
    (hvariance : ∀ m m', rel m m' → varianceOf' m' = varianceOf m)
    (ms ms' : List (Measurement α)) (hms : List.Forall₂ rel ms ms') :
    ∀ total, Evaluation.addTerms tree bound varianceOf' ms' total =
      Evaluation.addTerms tree bound varianceOf ms total := by
  induction hms with
  | nil => exact fun total => rfl
  | cons hm _ ih =>
      intro total
      rw [Evaluation.addTerms, Evaluation.addTerms, hvariance _ _ hm, h.symbol_eq _ _ hm]
      simp only [ih]

/-- The variances of related measurements are one computation, if those and the means of
    direct ones are. -/
theorem combinedVariance_eq (types : UncertaintyTypes)
    (hmean : ∀ d d', rel (.direct d) (.direct d') →
      Evaluation.directMean d' = Evaluation.directMean d)
    (hvariance : ∀ d d', rel (.direct d) (.direct d') →
      Evaluation.directVariance d' types = Evaluation.directVariance d types) (fuel : Nat) :
    ∀ m m', rel m m' → Evaluation.combinedVariance (σ := σ) g' types fuel m' =
      Evaluation.combinedVariance g types fuel m := by
  refine h.descend _ _ (fun fuel d d' hd => ?_) (fun m => ?_) (fun fuel m hm ih => ?_) fuel
  · rw [Evaluation.combinedVariance, Evaluation.combinedVariance, hvariance d d' hd]
  · rw [Evaluation.combinedVariance, Evaluation.combinedVariance]
  · have hterms : ∀ (tree : Expr α) (bound : Bindings α) (total : Quantity α),
        (Evaluation.ofExcept (g'.dependencies m) >>= fun ms =>
          Evaluation.addTerms tree bound (Evaluation.combinedVariance (σ := σ) g' types fuel) ms
            total) =
        (Evaluation.ofExcept (g.dependencies m) >>= fun ms =>
          Evaluation.addTerms tree bound (Evaluation.combinedVariance g types fuel) ms total) :=
      fun tree bound total => h.dependencies_bind m hm _ _ fun ms ms' hms =>
        h.addTerms_eq tree bound _ _ ih ms ms' hms total
    rw [Evaluation.combinedVariance, Evaluation.combinedVariance, Evaluation.compositeVariance,
      Evaluation.compositeVariance, h.bindings_eq _ _ (h.mean_eq hmean fuel) m hm]
    simp only [hterms]

end Variances

section Digits

omit h in
/-- The digits of related dependencies are counted alike. -/
theorem fewest_eq (digitsOf digitsOf' : Measurement α → Evaluation σ α Nat)
    (hdigits : ∀ m m', rel m m' → digitsOf' m' = digitsOf m) (ms ms' : List (Measurement α))
    (hms : List.Forall₂ rel ms ms') :
    ∀ digits, Evaluation.fewest digitsOf' ms' digits = Evaluation.fewest digitsOf ms digits := by
  induction hms with
  | nil => exact fun digits => rfl
  | cons hm _ ih =>
      intro digits
      rw [Evaluation.fewest, Evaluation.fewest, hdigits _ _ hm]
      simp only [ih]

include h in
/-- The counts of digits of related measurements are one computation, if those of direct
    ones are. -/
theorem minDigits_eq (hdirect : ∀ d d', rel (.direct d) (.direct d') → d'.minDigits = d.minDigits)
    (fuel : Nat) :
    ∀ m m', rel m m' →
      Evaluation.minDigits (σ := σ) g' fuel m' = Evaluation.minDigits g fuel m := by
  refine h.descend _ _ (fun fuel d d' hd => ?_) (fun m => ?_) (fun fuel m hm ih => ?_) fuel
  · rw [Evaluation.minDigits, Evaluation.minDigits, hdirect d d' hd]
  · rw [Evaluation.minDigits, Evaluation.minDigits]
  · rw [Evaluation.minDigits, Evaluation.minDigits]
    refine congrArg (Evaluation.within m) ?_
    rw [Evaluation.compositeMinDigits, Evaluation.compositeMinDigits]
    refine h.dependencies_bind m hm _ _ fun ms ms' hms => ?_
    rw [fewest_eq _ _ ih ms ms' hms none]

end Digits

end Corresponds

end Metrology.Graph
