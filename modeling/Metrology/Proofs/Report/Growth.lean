import Metrology.Proofs.Propagation.Store
import Metrology.Report.Basic

/-!
# What results leave behind

A propagator is asked for the results of one document after the other. None of the
questions changes its constants, and the cache only grows: a derivative that is kept
under a key stays there, since a new one is put in only where there is none. This is so
whatever the derivatives are, and whether or not an evaluation fails on the way.

## Main definitions

* `DerivativeCache.StaysIn`: A cache whose entries are all in another one.
* `Evaluation.Grows`: A computation that only adds to the cache.
* `Propagator.Onward`: A propagator and what it may become.
* `Propagator.Onwards`: A computation that moves a propagator onward.

## Theorems

* `Evaluation.combinedVariance_grows`: Variances only add to the cache.
* `Output.evaluate_onwards`: So do the results of outputs.
-/

namespace Metrology

variable {α β γ : Type}

namespace DerivativeCache

/-- What is kept under a key in one cache is kept under it in another one. -/
def StaysIn (cache next : DerivativeCache α) : Prop :=
  ∀ key found, cache.entries.lookup key = some found → next.entries.lookup key = some found

theorem StaysIn.refl (cache : DerivativeCache α) : cache.StaysIn cache := fun _ _ h => h

theorem StaysIn.trans (cache next last : DerivativeCache α) (h : cache.StaysIn next)
    (hnext : next.StaysIn last) : cache.StaysIn last :=
  fun key found hfound => hnext key found (h key found hfound)

variable [IdSource] [Scalar α] [Written α]

/-- One question adds at most one entry, and that under a new key. -/
theorem staysIn_derivative (cache : DerivativeCache α) (tree : Expr α) (symbol : String) :
    cache.StaysIn (cache.derivative tree symbol).2 := by
  rw [derivative]
  simp only
  cases hlookup : cache.entries.lookup (DerivativeCache.key tree symbol) with
  | some kept => exact StaysIn.refl cache
  | none =>
      -- The new entry is in front, but under a key that nothing was kept under.
      intro key found hfound
      have hother : (key == DerivativeCache.key tree symbol) = false := by
        rw [beq_eq_false_iff_ne]
        rintro rfl
        rw [hlookup] at hfound
        cases hfound
      simp only
      rw [List.lookup_cons, hother]
      exact hfound

end DerivativeCache

namespace Evaluation

/-- A computation that only adds to the cache. -/
def Grows (x : Evaluation (DerivativeCache α) α β) : Prop :=
  ∀ context : Context (DerivativeCache α) α, context.store.StaysIn (x.run context).2.store

namespace Grows

theorem of_storeFree (x : Evaluation (DerivativeCache α) α β) (h : StoreFree x) : Grows x := by
  intro context
  rw [h.store_eq]
  exact DerivativeCache.StaysIn.refl _

theorem pure (b : β) : Grows (Pure.pure b : Evaluation (DerivativeCache α) α β) :=
  of_storeFree _ (StoreFree.pure b)

theorem ofExcept (outcome : Except (PropagationError α) β) : Grows (Evaluation.ofExcept outcome) :=
  of_storeFree _ (StoreFree.ofExcept outcome)

theorem bind (x : Evaluation (DerivativeCache α) α β) (f : β → Evaluation (DerivativeCache α) α γ)
    (hx : Grows x) (hf : ∀ b, Grows (f b)) : Grows (x >>= f) := by
  intro context
  have hfirst := hx context
  rw [Outcome.run_bind]
  rcases hrun : x.run context with ⟨e | b, next⟩
  · rw [hrun] at hfirst
    exact hfirst
  · rw [hrun] at hfirst
    exact hfirst.trans _ _ _ (hf b next)

theorem within (m : CompositeMeasurement) (body : Evaluation (DerivativeCache α) α β)
    (h : Grows body) : Grows (Evaluation.within m body) := by
  intro context
  rw [run_within]
  -- Entering and leaving change the path only.
  by_cases hpath : context.path.any (·.1 = m.id) = true
  · rw [if_pos hpath]
    exact DerivativeCache.StaysIn.refl _
  · rw [if_neg hpath]
    exact h { context with path := context.path ++ [m.entry] }

variable [IdSource] [Scalar α] [Written α]

theorem derivative (tree : Expr α) (symbol : String) :
    Grows (Evaluation.derivative (σ := DerivativeCache α) tree symbol) :=
  fun context => context.store.staysIn_derivative tree symbol

theorem term (tree : Expr α) (bound : Bindings α) (symbol : String) (variance : Quantity α) :
    Grows (Evaluation.term (σ := DerivativeCache α) tree bound symbol variance) := by
  refine Grows.bind _ _ (Grows.derivative tree symbol) fun derived => ?_
  refine Grows.bind _ _ (Grows.ofExcept _) fun slope => ?_
  exact Grows.bind _ _ (Grows.ofExcept _) fun square => Grows.ofExcept _

theorem addTerms (tree : Expr α) (bound : Bindings α)
    (varianceOf : Measurement α → Evaluation (DerivativeCache α) α (Option (Quantity α)))
    (h : ∀ m, Grows (varianceOf m)) (dependencies : List (Measurement α)) :
    ∀ total, Grows (Evaluation.addTerms tree bound varianceOf dependencies total) := by
  induction dependencies with
  | nil => exact fun total => Grows.pure (some total)
  | cons dependency rest ih =>
      intro total
      rw [Evaluation.addTerms]
      cases dependency.symbol? with
      | none => exact ih total
      | some symbol =>
          refine Grows.bind _ _ (h dependency) fun variance? => ?_
          cases variance? with
          | none => exact Grows.pure none
          | some variance =>
              simp only
              split
              · exact ih total
              · refine Grows.bind _ _ (Grows.term tree bound symbol variance) fun contribution => ?_
                exact Grows.bind _ _ (Grows.ofExcept _) fun next => ih next

theorem compositeVariance (g : Graph α)
    (meanOf varianceOf : Measurement α → Evaluation (DerivativeCache α) α (Option (Quantity α)))
    (m : CompositeMeasurement) (hmeans : StoreFree (Evaluation.bindings g meanOf m))
    (hvariance : ∀ m, Grows (varianceOf m)) :
    Grows (Evaluation.compositeVariance g meanOf varianceOf m) := by
  refine Grows.bind _ _ (Grows.ofExcept _) fun tree => ?_
  -- The means do not ask for derivatives, only the terms after them do.
  refine Grows.bind _ _ (Grows.of_storeFree _ hmeans) fun bound? => ?_
  cases bound? with
  | none => exact Grows.pure none
  | some bound =>
      refine Grows.bind _ _ (Grows.ofExcept _) fun mean => ?_
      refine Grows.bind _ _ (Grows.ofExcept _) fun unit => ?_
      exact Grows.bind _ _ (Grows.ofExcept _) fun dependencies =>
        Grows.addTerms _ _ _ hvariance dependencies _

end Grows

variable [IdSource] [Scalar α] [Written α]

/-- Variances only add to the cache. -/
theorem combinedVariance_grows (g : Graph α) (types : UncertaintyTypes) (fuel : Nat) :
    ∀ m, Grows (combinedVariance (σ := DerivativeCache α) g types fuel m) := by
  induction fuel with
  | zero =>
      intro m
      cases m with
      | direct m => exact Grows.ofExcept _
      | composite m => exact Grows.of_storeFree _ (StoreFree.cycle m)
  | succ fuel ih =>
      intro m
      cases m with
      | direct m => exact Grows.ofExcept _
      | composite m =>
          exact Grows.within m _
            (Grows.compositeVariance g _ _ m (bindings_storeFree g fuel m) ih)

end Evaluation

namespace Propagator

/-- A propagator and what it may become: its constants are the same, and its cache still
    holds what it held. -/
structure Onward (p next : Propagator (DerivativeCache α) α) : Prop where
  constants_eq : next.constants = p.constants
  stays : p.store.StaysIn next.store

theorem Onward.refl (p : Propagator (DerivativeCache α) α) : Onward p p :=
  ⟨rfl, DerivativeCache.StaysIn.refl p.store⟩

theorem Onward.trans (p next last : Propagator (DerivativeCache α) α) (h : Onward p next)
    (hnext : Onward next last) : Onward p last :=
  ⟨hnext.constants_eq.trans h.constants_eq, h.stays.trans _ _ _ hnext.stays⟩

/-- A computation that moves a propagator onward. -/
def Onwards (x : Propagation (DerivativeCache α) α β) : Prop := ∀ p, Onward p (x.run p).2

theorem onwards_ofExcept (outcome : Except (PropagationError α) β) :
    Onwards (ExceptT.mk (pure outcome) : Propagation (DerivativeCache α) α β) :=
  fun p => Onward.refl p

theorem onwards_bind (x : Propagation (DerivativeCache α) α β)
    (f : β → Propagation (DerivativeCache α) α γ) (hx : Onwards x) (hf : ∀ b, Onwards (f b)) :
    Onwards (x >>= f) := by
  intro p
  have hfirst := hx p
  rw [Outcome.run_bind]
  rcases hrun : x.run p with ⟨e | b, next⟩
  · rw [hrun] at hfirst
    exact hfirst
  · rw [hrun] at hfirst
    exact hfirst.trans _ _ _ (hf b next)

theorem onwards_ask (all : List (Measurement α))
    (question : Graph α → Evaluation (DerivativeCache α) α β)
    (h : ∀ g, Evaluation.Grows (question g)) : Onwards (ask all question) :=
  fun p => ⟨rfl, h ⟨all, p.constants⟩ (.fresh p.store)⟩

variable [Scalar α]

theorem onwards_mean (m : Measurement α) (all : List (Measurement α)) :
    Onwards (mean (σ := DerivativeCache α) m all) :=
  onwards_ask all _ fun g => .of_storeFree _ (Evaluation.mean_storeFree g _ m)

theorem onwards_uncertainty [IdSource] [Written α] (m : Measurement α) (all : List (Measurement α))
    (types : UncertaintyTypes) : Onwards (uncertainty (σ := DerivativeCache α) m all types) :=
  onwards_bind _ _ (onwards_ask all _ fun g => Evaluation.combinedVariance_grows g types _ m)
    fun _ => onwards_ofExcept _

end Propagator

/-- The result of an output leaves the constants and what the cache holds as they are. -/
theorem Output.evaluate_onwards [IdSource] [Scalar α] [Written α] (document : Document α)
    (output : Output) :
    Propagator.Onwards (output.evaluate (σ := DerivativeCache α) document) := by
  rw [Output.evaluate]
  cases document.findBySymbol? output.name with
  | none => exact Propagator.onwards_ofExcept _
  | some m =>
      refine Propagator.onwards_bind _ _ (Propagator.onwards_mean m _) fun mean? => ?_
      cases mean? with
      | none => exact Propagator.onwards_ofExcept _
      | some mean =>
          refine Propagator.onwards_bind _ _ (Propagator.onwards_uncertainty m _ _)
            fun uncertainty? => ?_
          cases uncertainty? with
          | none => exact Propagator.onwards_ofExcept _
          | some uncertainty =>
              -- The digits are counted without the store.
              refine Propagator.onwards_bind _ _ (fun p => .refl p) fun p => ?_
              exact Propagator.onwards_bind _ _ (Propagator.onwards_ofExcept _)
                fun report => Propagator.onwards_ofExcept _

end Metrology
