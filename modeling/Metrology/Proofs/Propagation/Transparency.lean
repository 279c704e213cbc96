import Metrology.Proofs.Expr.Substitution
import Metrology.Proofs.Propagation.Related

/-!
# Stores of derivatives are transparent

An evaluation asks its store for derivatives. As long as the store answers with
derivatives, the outcome is the one of the store that remembers nothing, and the
store is left such that it goes on answering. What the store is asked for are the
formulas below the measurement in question, each with its own symbols, so it may
answer anything else in any way it likes.

The two evaluations run side by side: their contexts differ in the store only,
and every step keeps it that way, also where the steps fail.

## Main definitions

* `DerivativeStore.Answers`: A store that answers with derivatives from now on.
* `DerivativeStore.Keeps`: A kind of stores that answer and stay of the kind.
* `Evaluation.Alike`, `Evaluation.Transparent`: Contexts and computations that
  differ in the store only.
* `Evaluation.AlikeOn`: Such contexts on a path.
* `Graph.Asks`: What the evaluation of a measurement asks its store.

## Theorems

* `DerivativeStore.answers_noMemory`: A store that remembers nothing answers.
* `Evaluation.transparent_of_related`: What goes through the same steps on every path
  differs in the store only.
* `Evaluation.mean_transparent`, `Evaluation.combinedVariance_transparent`: Means
  and variances do not depend on the store.
* `Propagator.combinedVariance_noMemory`: The variance is the one without a
  memory.
-/

namespace Metrology

variable {σ α β : Type}

section Stores

variable [Scalar α]

/-- A store that answers what it is asked with derivatives, and goes on doing so. -/
def DerivativeStore.Answers [DerivativeStore σ α] (asked : Expr α → String → Prop)
    (store : σ) : Prop :=
  ∃ kept : σ → Prop, kept store ∧ ∀ store, kept store → ∀ tree symbol, asked tree symbol →
    (derivative store tree symbol).1 = tree.differentiate symbol ∧
      kept (derivative store tree symbol).2

theorem DerivativeStore.Answers.derivative [DerivativeStore σ α] (asked : Expr α → String → Prop)
    (store : σ) (h : Answers asked store) (tree : Expr α) (symbol : String)
    (hasked : asked tree symbol) :
    (DerivativeStore.derivative store tree symbol).1 = tree.differentiate symbol ∧
      Answers asked (DerivativeStore.derivative store tree symbol).2 := by
  rcases h with ⟨kept, hstore, hanswers⟩
  rcases hanswers store hstore tree symbol hasked with ⟨hanswer, hnext⟩
  exact ⟨hanswer, kept, hnext, hanswers⟩

/-- What is kept by every answer that a store of this kind gives, each of which is the
    derivative. -/
def DerivativeStore.Keeps [DerivativeStore σ α] (asked : Expr α → String → Prop)
    (kept : σ → Prop) : Prop :=
  ∀ store, kept store → ∀ tree symbol, asked tree symbol →
    (derivative store tree symbol).1 = tree.differentiate symbol ∧
      kept (derivative store tree symbol).2

/-- Stores that answer go on doing so. -/
theorem DerivativeStore.keeps_answers [DerivativeStore σ α] (asked : Expr α → String → Prop) :
    Keeps asked (Answers (σ := σ) asked) :=
  fun store h => h.derivative asked store

theorem DerivativeStore.answers_noMemory (asked : Expr α → String → Prop) (store : NoMemory α) :
    Answers asked store :=
  ⟨fun _ => True, True.intro, fun _ _ _ _ _ => ⟨rfl, True.intro⟩⟩

end Stores

namespace Graph

variable [Scalar α]

/-- What the evaluation of a measurement asks its store: the formulas below it, with
    the symbols that they mention. -/
def Asks (g : Graph α) (start : Measurement α) (tree : Expr α) (symbol : String) : Prop :=
  ∃ c formula, g.Reaches start (.composite c) ∧ c.tree (α := α) = .ok formula ∧
    tree = .ofDecimals formula ∧ tree.mentions symbol = true

/-- What is asked for a dependency is asked for the measurement. -/
theorem Asks.of_dependency (g : Graph α) (m other : Measurement α) (href : g.References m other)
    (tree : Expr α) (symbol : String) (h : g.Asks other tree symbol) : g.Asks m tree symbol := by
  rcases h with ⟨c, formula, hreaches, hformula⟩
  exact ⟨c, formula, .head href hreaches, hformula⟩

/-- The terms of a measurement's variance ask for its formula. -/
theorem asks_formula (g : Graph α) (hids : g.DistinctIds) (m : CompositeMeasurement)
    (formula : Expr Decimal) (dependencies : List (Measurement α))
    (hformula : m.tree (α := α) = .ok formula) (hdependencies : g.dependencies m = .ok dependencies)
    (dependency : Measurement α) (hmem : dependency ∈ dependencies) (symbol : String)
    (hsymbol : dependency.symbol? = some symbol) :
    g.Asks (.composite m) (.ofDecimals formula) symbol := by
  refine ⟨m, formula, .refl, hformula, rfl, ?_⟩
  rcases (g.mem_dependencies_iff hids m dependencies hdependencies dependency).mp hmem with
    ⟨formula', hformula', name, hname, hfind⟩
  rw [hformula, Except.ok.injEq] at hformula'
  have hsame := (g.find?_eq_some m name dependency hfind).2.1
  rw [hsymbol, Option.some.injEq] at hsame
  rw [Expr.ofDecimals, Expr.mentions_map, ← Expr.mem_freeSymbols, hformula', hsame]
  exact hname

end Graph

namespace Evaluation

section Steps

/-- Contexts that differ in their stores only, one of which is of a given kind. -/
structure Alike (kept : σ → Prop) (context : Context σ α) (plain : Context (NoMemory α) α) :
    Prop where
  path_eq : context.path = plain.path
  means_eq : context.means = plain.means
  store : kept context.store

/-- Computations that differ in their stores only have the same outcome, and they
    leave contexts that differ in their stores only. -/
def Transparent (kept : σ → Prop) (x : Evaluation σ α β) (y : Evaluation (NoMemory α) α β) :
    Prop :=
  ∀ context plain, Alike kept context plain →
    (x.run context).1 = (y.run plain).1 ∧ Alike kept (x.run context).2 (y.run plain).2

/-- Contexts on a path that differ in their stores only. -/
def AlikeOn (kept : σ → Prop) (path : List (RecordId × String)) (context : Context σ α)
    (plain : Context (NoMemory α) α) : Prop :=
  plain.path = path ∧ Alike kept context plain

theorem onPaths_alike (kept : σ → Prop) : OnPaths (AlikeOn (α := α) kept) where
  path_eq _ _ _ h := ⟨h.2.path_eq.trans h.1, h.1⟩
  means_eq _ _ _ h := h.2.means_eq
  remember _ _ _ _ h := ⟨h.1, h.2.path_eq, rfl, h.2.store⟩
  enter _ _ _ _ h := ⟨rfl, rfl, h.2.means_eq, h.2.store⟩
  leave := by
    rintro path context plain entry ⟨hpath, hpaths, hmeans, hstore⟩
    exact ⟨by rw [leave, hpath, List.dropLast_concat], congrArg List.dropLast hpaths, hmeans, hstore⟩

theorem transparent_of_related (kept : σ → Prop) (x : Evaluation σ α β)
    (y : Evaluation (NoMemory α) α β) (h : ∀ path, Related (AlikeOn kept path) x y) :
    Transparent kept x y := by
  intro context plain hcontext
  rcases h plain.path context plain ⟨rfl, hcontext⟩ with ⟨houtcome, -, hnext⟩
  exact ⟨houtcome, hnext⟩

end Steps

variable [Scalar α]

/-- Means do not depend on the store. -/
theorem mean_transparent (kept : σ → Prop) (g : Graph α) (fuel : Nat) (m : Measurement α) :
    Transparent kept (mean g fuel m) (mean g fuel m) :=
  transparent_of_related kept _ _ fun path => Related.mean (onPaths_alike kept) g fuel path m

section Variances

variable [DerivativeStore σ α]

variable (asked : Expr α → String → Prop) (kept : σ → Prop)
  (hkept : DerivativeStore.Keeps asked kept)

include hkept in
theorem derivative_alikeOn (path : List (RecordId × String)) (tree : Expr α) (symbol : String)
    (hasked : asked tree symbol) :
    Related (AlikeOn kept path) (derivative tree symbol) (derivative tree symbol) := by
  rintro context plain ⟨hpath, h⟩
  rcases hkept _ h.store tree symbol hasked with ⟨hanswer, hnext⟩
  exact ⟨congrArg Except.ok hanswer, hpath, h.path_eq, h.means_eq, hnext⟩

include hkept in
/-- Variances are alike on every path. -/
theorem combinedVariance_alikeOn (g : Graph α) (hids : g.DistinctIds) (types : UncertaintyTypes)
    (fuel : Nat) :
    ∀ path m, (∀ tree symbol, g.Asks m tree symbol → asked tree symbol) →
      Related (AlikeOn kept path) (combinedVariance g types fuel m)
        (combinedVariance g types fuel m) := by
  induction fuel with
  | zero =>
      intro path m _
      cases m with
      | direct m => exact Related.ofExcept _
      | composite m => exact Related.cycle (onPaths_alike kept) m
  | succ fuel ih =>
      intro path m hasked
      cases m with
      | direct m => exact Related.ofExcept _
      | composite m =>
          refine Related.within (onPaths_alike kept) m _ _ fun _ =>
            Related.compositeVariance g m _ _ _ _ ?_
              (fun other _ => Related.mean (onPaths_alike kept) g fuel _ other) fun other href => ?_
          · intro tree dependencies htree hdependencies dependency hmem symbol hsymbol
            exact derivative_alikeOn asked kept hkept _ _ symbol (hasked _ symbol
              (g.asks_formula hids m tree dependencies htree hdependencies dependency hmem symbol
                hsymbol))
          · -- What a dependency asks for is asked for the measurement.
            exact ih _ other fun tree symbol h => hasked tree symbol (h.of_dependency g _ _ href)

include hkept in
/-- Variances do not depend on the store, as long as it answers. -/
theorem combinedVariance_transparent (g : Graph α) (hids : g.DistinctIds)
    (types : UncertaintyTypes) (fuel : Nat) (m : Measurement α)
    (hasked : ∀ tree symbol, g.Asks m tree symbol → asked tree symbol) :
    Transparent kept (combinedVariance g types fuel m) (combinedVariance g types fuel m) :=
  transparent_of_related kept _ _ fun path =>
    combinedVariance_alikeOn asked kept hkept g hids types fuel path m hasked

end Variances

end Evaluation

namespace Propagator

open Evaluation

variable [Scalar α] [DerivativeStore σ α]

/-- The variance that a propagator finds is the one that is found without a memory, if
    its store answers what the measurement asks. -/
theorem combinedVariance_noMemory (p : Propagator σ α) (all : List (Measurement α))
    (hids : (all.map Measurement.id).Nodup) (m : Measurement α) (types : UncertaintyTypes)
    (hstore : DerivativeStore.Answers (Graph.Asks ⟨all, p.constants⟩ m) p.store) :
    ((Propagator.combinedVariance m all types).run p).1 =
      ((Propagator.combinedVariance m all types).run
        (⟨p.constants, ⟨⟩⟩ : Propagator (NoMemory α) α)).1 :=
  (combinedVariance_transparent _ _ (DerivativeStore.keeps_answers _) ⟨all, p.constants⟩ hids
    types _ m (fun _ _ h => h) (.fresh p.store) (.fresh ⟨⟩) ⟨rfl, rfl, hstore⟩).1

end Propagator

end Metrology
