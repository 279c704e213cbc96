import Metrology.Proofs.Propagation.Related

/-!
# Means and the store of derivatives

Only variances need derivatives. A mean neither looks at the store nor changes
it, so the mean that was found for an output and the one that its variance is
taken at are the same, whatever was stored in between.

The evaluation is compared with itself in a context that has another store.

## Main definitions

* `Evaluation.StoreFree`: A computation that leaves the store alone.
* `Evaluation.Replaced`: Contexts on a path that differ in the store.

## Theorems

* `Evaluation.StoreFree.of_related`: A computation leaves the store alone if it does
  the same with any other.
* `Evaluation.mean_storeFree`, `Evaluation.bindings_storeFree`: Means leave the store
  alone, and so does binding them.
-/

namespace Metrology.Evaluation

variable {σ α β : Type}

/-- A computation that neither looks at the store nor changes it. -/
def StoreFree (x : Evaluation σ α β) : Prop :=
  ∀ context store, x.run { context with store } =
    ((x.run context).1, { (x.run context).2 with store })

/-- Contexts on a path, one of which has another store. -/
def Replaced (store : σ) (path : List (RecordId × String)) (context other : Context σ α) : Prop :=
  context.path = path ∧ other = { context with store }

theorem onPaths_replaced (store : σ) : OnPaths (Replaced (α := α) store) where
  path_eq := by
    rintro path context _ ⟨hpath, rfl⟩
    exact ⟨hpath, hpath⟩
  means_eq := by
    rintro path context _ ⟨-, rfl⟩
    rfl
  remember := by
    rintro path context _ means ⟨hpath, rfl⟩
    exact ⟨hpath, rfl⟩
  enter := by
    rintro path context _ entry ⟨-, rfl⟩
    exact ⟨rfl, rfl⟩
  leave := by
    rintro path context _ entry ⟨hpath, rfl⟩
    exact ⟨by rw [leave, hpath, List.dropLast_concat], rfl⟩

namespace StoreFree

theorem store_eq (x : Evaluation σ α β) (h : StoreFree x) (context : Context σ α) :
    (x.run context).2.store = context.store := by
  have hrun : x.run context = ((x.run context).1, { (x.run context).2 with store := context.store }) :=
    h context context.store
  rw [hrun]

theorem pure (b : β) : StoreFree (σ := σ) (α := α) (Pure.pure b) := fun _ _ => rfl

theorem ofExcept (outcome : Except (PropagationError α) β) :
    StoreFree (σ := σ) (Evaluation.ofExcept outcome) :=
  fun _ _ => rfl

theorem cycle (m : CompositeMeasurement) : StoreFree (σ := σ) (α := α) (β := β) (Evaluation.cycle m) :=
  fun _ _ => rfl

/-- A computation leaves the store alone if it does the same with any other. -/
theorem of_related (x : Evaluation σ α β)
    (h : ∀ store path, Related (Replaced store path) x x) : StoreFree x := by
  intro context store
  rcases h store context.path context { context with store } ⟨rfl, rfl⟩ with ⟨houtcome, -, hnext⟩
  exact Prod.ext houtcome.symm hnext

end StoreFree

variable [Scalar α]

/-- Means leave the store alone. -/
theorem mean_storeFree (g : Graph α) (fuel : Nat) (m : Measurement α) :
    StoreFree (σ := σ) (mean g fuel m) :=
  StoreFree.of_related _ fun store path => Related.mean (onPaths_replaced store) g fuel path m

/-- So do the means of dependencies. -/
theorem bindings_storeFree (g : Graph α) (fuel : Nat) (m : CompositeMeasurement) :
    StoreFree (σ := σ) (bindings g (mean g fuel) m) :=
  StoreFree.of_related _ fun store path => Related.bindings g m _ _ fun other _ =>
    Related.mean (onPaths_replaced store) g fuel path other

end Metrology.Evaluation
