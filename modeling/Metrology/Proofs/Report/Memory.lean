import Metrology.Proofs.Propagation.Transparency
import Metrology.Report.Basic

/-!
# Results do not depend on the memory

A propagator goes on from one output to the next with the constants it has and
the store that the last answer has left. The result of an output is the one of a
propagator without a memory, as long as the store is of a kind that answers with
derivatives, and the store that is left is of that kind again, also where there is
no result.

## Main definitions

* `Propagator.Alike`, `Propagator.Transparent`: Propagators and computations that
  differ in the store only.
* `Document.Asks`: What the results of a document ask the store.

## Theorems

* `Propagator.ask_transparent`: A question in a fresh context.
* `Output.evaluate_transparent`: Results do not depend on the store.
* `DerivativeCache.keeps_sound`: A cache whose keys tell the questions apart answers
  with derivatives.
-/

namespace Metrology

variable {σ α β γ : Type}

namespace Propagator

/-- Propagators with given constants that differ in their stores only, one of which is of
    a given kind. -/
structure Alike (constants : Bindings α) (kept : σ → Prop) (p : Propagator σ α)
    (plain : Propagator (NoMemory α) α) : Prop where
  constants_eq : p.constants = constants
  plain_eq : plain.constants = constants
  store : kept p.store

/-- Computations that differ in their stores only have the same outcome, and they leave
    propagators that differ in their stores only. -/
def Transparent (constants : Bindings α) (kept : σ → Prop) (x : Propagation σ α β)
    (y : Propagation (NoMemory α) α β) : Prop :=
  ∀ p plain, Alike constants kept p plain →
    (x.run p).1 = (y.run plain).1 ∧ Alike constants kept (x.run p).2 (y.run plain).2

section Steps

variable (constants : Bindings α) (kept : σ → Prop)

theorem transparent_pure (b : β) : Transparent constants kept (pure b) (pure b) :=
  fun _ _ h => ⟨rfl, h⟩

theorem transparent_ofExcept (outcome : Except (PropagationError α) β) :
    Transparent constants kept (ExceptT.mk (pure outcome)) (ExceptT.mk (pure outcome)) :=
  fun _ _ h => ⟨rfl, h⟩

theorem transparent_bind (x : Propagation σ α β) (y : Propagation (NoMemory α) α β)
    (f : β → Propagation σ α γ) (f' : β → Propagation (NoMemory α) α γ)
    (hx : Transparent constants kept x y) (hf : ∀ b, Transparent constants kept (f b) (f' b)) :
    Transparent constants kept (x >>= f) (y >>= f') := by
  intro p plain h
  have hfirst := hx p plain h
  rw [Outcome.run_bind, Outcome.run_bind]
  rcases hrun : x.run p with ⟨outcome, next⟩
  rcases hplain : y.run plain with ⟨outcome', next'⟩
  rw [hrun, hplain] at hfirst
  rcases hfirst with ⟨rfl, hnext⟩
  cases outcome with
  | error e => exact ⟨rfl, hnext⟩
  | ok b => exact hf b next next' hnext

/-- A question in a fresh context. -/
theorem ask_transparent (all : List (Measurement α)) (question : Graph α → Evaluation σ α β)
    (question' : Graph α → Evaluation (NoMemory α) α β)
    (h : Evaluation.Transparent kept (question ⟨all, constants⟩) (question' ⟨all, constants⟩)) :
    Transparent constants kept (ask all question) (ask all question') := by
  intro p plain halike
  have hrun := h (.fresh p.store) (.fresh plain.store) ⟨rfl, rfl, halike.store⟩
  rw [← halike.constants_eq] at hrun
  refine ⟨?_, halike.constants_eq, halike.plain_eq, hrun.2.store⟩
  have hsame : plain.constants = p.constants := halike.plain_eq.trans halike.constants_eq.symm
  change ((question ⟨all, p.constants⟩).run (.fresh p.store)).1 =
    ((question' ⟨all, plain.constants⟩).run (.fresh plain.store)).1
  rw [hsame]
  exact hrun.1

variable [Scalar α]

theorem mean_transparent (m : Measurement α) (all : List (Measurement α)) :
    Transparent constants kept (mean m all) (mean m all) :=
  ask_transparent constants kept all _ _ (Evaluation.mean_transparent kept _ _ m)

variable [DerivativeStore σ α] (asked : Expr α → String → Prop)
  (hkept : DerivativeStore.Keeps asked kept)

include hkept in
theorem uncertainty_transparent (m : Measurement α) (all : List (Measurement α))
    (hids : (all.map Measurement.id).Nodup) (types : UncertaintyTypes)
    (hasked : ∀ tree symbol, Graph.Asks ⟨all, constants⟩ m tree symbol → asked tree symbol) :
    Transparent constants kept (uncertainty m all types) (uncertainty m all types) := by
  refine transparent_bind _ _ _ _ _ _ (ask_transparent _ _ all _ _ ?_)
    fun variance => transparent_ofExcept _ _ _
  exact Evaluation.combinedVariance_transparent asked kept hkept ⟨all, constants⟩ hids types _ m
    hasked

end Steps

end Propagator

/-- What the results of a document ask the store: for each output, what the variance of
    its measurement asks. -/
def Document.Asks [Scalar α] (document : Document α) (constants : Bindings α) (tree : Expr α)
    (symbol : String) : Prop :=
  ∃ output ∈ document.outputs, ∃ m, document.findBySymbol? output.name = some m ∧
    Graph.Asks ⟨document.measurements, constants⟩ m tree symbol

namespace Output

open Propagator

variable [Scalar α] [DerivativeStore σ α]

/-- The result of an output does not depend on the store. -/
theorem evaluate_transparent (constants : Bindings α) (kept : σ → Prop)
    (asked : Expr α → String → Prop) (hkept : DerivativeStore.Keeps asked kept)
    (document : Document α) (hids : (document.measurements.map Measurement.id).Nodup)
    (hasked : ∀ tree symbol, document.Asks constants tree symbol → asked tree symbol)
    (output : Output) (houtput : output ∈ document.outputs) :
    Transparent constants kept (output.evaluate document) (output.evaluate document) := by
  rw [evaluate, evaluate]
  cases hfound : document.findBySymbol? output.name with
  | none => exact transparent_pure constants kept none
  | some m =>
      simp only
      refine transparent_bind _ _ _ _ _ _ (mean_transparent constants kept m _) fun mean? => ?_
      cases mean? with
      | none => exact transparent_pure constants kept none
      | some mean =>
          refine transparent_bind _ _ _ _ _ _
            (uncertainty_transparent constants kept asked hkept m _ hids _ fun tree symbol h =>
              hasked tree symbol ⟨output, houtput, m, hfound, h⟩) fun uncertainty? => ?_
          cases uncertainty? with
          | none => exact transparent_pure constants kept none
          | some uncertainty =>
              -- The digits are counted with the constants, which are the same.
              intro p plain h
              rw [Outcome.run_bind, Outcome.run_bind, Outcome.run_get, Outcome.run_get]
              simp only
              rw [h.constants_eq, h.plain_eq]
              exact transparent_bind _ _ _ _ _ _ (transparent_ofExcept _ _ _)
                (fun report => transparent_pure constants kept (some report)) p plain h

end Output

namespace DerivativeCache

variable [IdSource] [Scalar α] [Written α]

/-- Every entry of a cache is the derivative of a formula by a symbol, under their key. -/
def Sound (asked : Expr α → String → Prop) (cache : DerivativeCache α) : Prop :=
  ∀ entry ∈ cache.entries, ∃ tree symbol, asked tree symbol ∧
    entry = (key tree symbol, tree.differentiate symbol)

theorem sound_empty (asked : Expr α → String → Prop) : Sound asked (empty : DerivativeCache α) := by
  intro entry hentry
  cases hentry

/-- A cache with a sound entry for each key answers with derivatives if the keys tell the
    questions apart. -/
theorem keeps_sound (asked : Expr α → String → Prop)
    (hkeys : ∀ tree symbol other symbol', asked tree symbol → asked other symbol' →
      key tree symbol = key other symbol' → tree = other ∧ symbol = symbol') :
    DerivativeStore.Keeps asked (Sound asked) := by
  intro cache hcache tree symbol hasked
  change (cache.derivative tree symbol).1 = _ ∧ Sound asked (cache.derivative tree symbol).2
  rw [derivative]
  simp only
  cases hlookup : cache.entries.lookup (key tree symbol) with
  | some kept =>
      rcases List.lookup_eq_some_iff.mp hlookup with ⟨before, after, hentries, -⟩
      have hmem : (key tree symbol, kept) ∈ cache.entries := by rw [hentries]; simp
      rcases hcache _ hmem with ⟨other, symbol', hother, hentry⟩
      rw [Prod.mk.injEq] at hentry
      rcases hkeys tree symbol other symbol' hasked hother hentry.1 with ⟨rfl, rfl⟩
      exact ⟨hentry.2, hcache⟩
  | none =>
      refine ⟨rfl, fun entry hentry => ?_⟩
      rcases List.mem_cons.mp hentry with rfl | hentry
      · exact ⟨tree, symbol, hasked, rfl⟩
      · exact hcache entry hentry

end DerivativeCache

end Metrology
