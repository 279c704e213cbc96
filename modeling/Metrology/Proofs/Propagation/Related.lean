import Metrology.Proofs.Propagation.Graph

/-!
# Evaluations side by side

Two evaluations that go through the same steps, each in a context of its own. Contexts are
related in some way, and what is asked is that related contexts give one outcome and are
left related, also where the outcome is a failure. A rule for each step says what its parts
have to satisfy, so that a comparison of two recursions is made at the few places where
they differ.

How contexts are related may depend on the path that they are on. Entering a measurement
relates them on a longer path, and leaving it on the old one.

## Main definitions

* `Evaluation.Related`: Computations that have one outcome in related contexts.
* `Evaluation.Closes`: Computations that fail like a cycle where a measurement is on the path.
* `Evaluation.OnPaths`: Relations of contexts that all steps but those on the store keep.

## Theorems

* `Evaluation.Related.bind`, `Evaluation.Related.bindMeans`, `Evaluation.Related.fewest`,
  `Evaluation.Related.addTerms`: The rules for any relation.
* `Evaluation.Related.compositeMean`, `Evaluation.Related.compositeVariance`,
  `Evaluation.Related.compositeMinDigits`: Composite measurements, by what they refer to.
* `Evaluation.Related.closed`, `Evaluation.Related.within`, `Evaluation.Related.remembered`:
  The rules for relations on paths.
* `Evaluation.Related.mean`: Means in related contexts.
-/

namespace Metrology.Evaluation

variable {σ σ' α β γ : Type}

/-- Computations that have one outcome in related contexts, and leave them related. -/
def Related (R : Context σ α → Context σ' α → Prop) (x : Evaluation σ α β)
    (y : Evaluation σ' α β) : Prop :=
  ∀ context other, R context other →
    (x.run context).1 = (y.run other).1 ∧ R (x.run context).2 (y.run other).2

/-- A computation that fails like a cycle on every path with a measurement. -/
def Closes (m : CompositeMeasurement) (x : Evaluation σ α β) : Prop :=
  ∀ context, m.id ∈ context.path.map Prod.fst →
    x.run context = (cycle m : Evaluation σ α β).run context

theorem closes_cycle (m : CompositeMeasurement) :
    Closes m (cycle m : Evaluation σ α β) := fun _ _ => rfl

theorem closes_within (m : CompositeMeasurement) (body : Evaluation σ α β) :
    Closes m (within m body) := by
  intro context h
  have hany : context.path.any (·.1 = m.id) = true := by
    rcases List.mem_map.mp h with ⟨entry, hentry, hid⟩
    exact List.any_eq_true.mpr ⟨entry, hentry, decide_eq_true hid⟩
  rw [run_within, if_pos hany, run_cycle]

theorem run_within_of_not_mem (m : CompositeMeasurement) (body : Evaluation σ α β)
    (context : Context σ α) (h : m.id ∉ context.path.map Prod.fst) :
    (within m body).run context =
      ((body.run { context with path := context.path ++ [m.entry] }).1,
        leave (body.run { context with path := context.path ++ [m.entry] }).2) := by
  have hopen : ¬ context.path.any (·.1 = m.id) = true := by
    intro hany
    rcases List.any_eq_true.mp hany with ⟨entry, hentry, hid⟩
    exact h (List.mem_map.mpr ⟨entry, hentry, of_decide_eq_true hid⟩)
  rw [run_within, if_neg hopen]

namespace Related

section Sequences

variable {R : Context σ α → Context σ' α → Prop}

theorem pure (b : β) : Related R (Pure.pure b) (Pure.pure b) := fun _ _ h => ⟨rfl, h⟩

theorem ofExcept (outcome : Except (PropagationError α) β) :
    Related R (Evaluation.ofExcept outcome) (Evaluation.ofExcept outcome) :=
  fun _ _ h => ⟨rfl, h⟩

theorem bind (x : Evaluation σ α β) (y : Evaluation σ' α β) (f : β → Evaluation σ α γ)
    (f' : β → Evaluation σ' α γ) (hx : Related R x y) (hf : ∀ b, Related R (f b) (f' b)) :
    Related R (x >>= f) (y >>= f') := by
  intro context other h
  have hfirst := hx context other h
  rw [Outcome.run_bind, Outcome.run_bind]
  generalize x.run context = ending at hfirst ⊢
  generalize y.run other = ending' at hfirst ⊢
  rcases ending with ⟨outcome, next⟩
  rcases ending' with ⟨outcome', next'⟩
  rcases hfirst with ⟨rfl, hnext⟩
  cases outcome with
  | error e => exact ⟨rfl, hnext⟩
  | ok b => exact hf b next next' hnext

/-- A sequence that goes on with an outcome that does not depend on the context. -/
theorem ofExcept_bind (outcome : Except (PropagationError α) β) (f : β → Evaluation σ α γ)
    (f' : β → Evaluation σ' α γ) (hf : ∀ b, outcome = .ok b → Related R (f b) (f' b)) :
    Related R (Evaluation.ofExcept outcome >>= f) (Evaluation.ofExcept outcome >>= f') := by
  cases outcome with
  | error e => exact fun _ _ h => ⟨rfl, h⟩
  | ok b => exact hf b rfl

theorem bindMeans (meanOf : Measurement α → Evaluation σ α (Option (Quantity α)))
    (meanOf' : Measurement α → Evaluation σ' α (Option (Quantity α)))
    (dependencies : List (Measurement α))
    (h : ∀ dependency ∈ dependencies, Related R (meanOf dependency) (meanOf' dependency)) :
    ∀ bound, Related R (Evaluation.bindMeans meanOf dependencies bound)
      (Evaluation.bindMeans meanOf' dependencies bound) := by
  induction dependencies with
  | nil => exact fun bound => Related.pure (some bound)
  | cons dependency rest ih =>
      intro bound
      have hrest := ih fun other hother => h other (List.mem_cons_of_mem _ hother)
      refine Related.bind _ _ _ _ (h dependency List.mem_cons_self) (fun mean => ?_)
      cases mean with
      | none => exact Related.pure none
      | some q =>
          simp only
          cases dependency.symbol? with
          | some symbol => exact hrest (bound.bind symbol q)
          | none => exact hrest bound

theorem fewest (digitsOf : Measurement α → Evaluation σ α Nat)
    (digitsOf' : Measurement α → Evaluation σ' α Nat) (dependencies : List (Measurement α))
    (h : ∀ dependency ∈ dependencies, Related R (digitsOf dependency) (digitsOf' dependency)) :
    ∀ digits, Related R (Evaluation.fewest digitsOf dependencies digits)
      (Evaluation.fewest digitsOf' dependencies digits) := by
  induction dependencies with
  | nil => exact fun digits => Related.pure digits
  | cons dependency rest ih =>
      exact fun digits => Related.bind _ _ _ _ (h dependency List.mem_cons_self) fun d =>
        ih (fun other hother => h other (List.mem_cons_of_mem _ hother)) _

end Sequences

section Composites

variable {R : Context σ α → Context σ' α → Prop} (g : Graph α) (m : CompositeMeasurement)

theorem bindings (meanOf : Measurement α → Evaluation σ α (Option (Quantity α)))
    (meanOf' : Measurement α → Evaluation σ' α (Option (Quantity α)))
    (h : ∀ other, g.References (.composite m) other → Related R (meanOf other) (meanOf' other)) :
    Related R (Evaluation.bindings g meanOf m) (Evaluation.bindings g meanOf' m) :=
  Related.ofExcept_bind _ _ _ fun dependencies hdependencies =>
    Related.bindMeans meanOf meanOf' dependencies
      (fun dependency hmem =>
        h dependency (g.references_of_mem_dependencies m dependencies hdependencies dependency hmem))
      g.constants

theorem compositeMinDigits (digitsOf : Measurement α → Evaluation σ α Nat)
    (digitsOf' : Measurement α → Evaluation σ' α Nat)
    (h : ∀ other, g.References (.composite m) other →
      Related R (digitsOf other) (digitsOf' other)) :
    Related R (Evaluation.compositeMinDigits g digitsOf m)
      (Evaluation.compositeMinDigits g digitsOf' m) := by
  refine Related.ofExcept_bind _ _ _ fun dependencies hdependencies => ?_
  refine Related.bind _ _ _ _ (Related.fewest _ _ dependencies (fun dependency hmem => ?_) none)
    fun digits => Related.pure _
  exact h dependency (g.references_of_mem_dependencies m dependencies hdependencies dependency hmem)

variable [Scalar α]

theorem compositeMean (meanOf : Measurement α → Evaluation σ α (Option (Quantity α)))
    (meanOf' : Measurement α → Evaluation σ' α (Option (Quantity α)))
    (h : ∀ other, g.References (.composite m) other → Related R (meanOf other) (meanOf' other)) :
    Related R (Evaluation.compositeMean g meanOf m) (Evaluation.compositeMean g meanOf' m) := by
  refine Related.bind _ _ _ _ (Related.ofExcept _) fun tree => ?_
  refine Related.bind _ _ _ _ (Related.bindings g m meanOf meanOf' h) fun bound? => ?_
  cases bound? with
  | none => exact Related.pure none
  | some bound => exact Related.bind _ _ _ _ (Related.ofExcept _) fun q => Related.pure (some q)

variable [DerivativeStore σ α] [DerivativeStore σ' α]

/-- The two stores have to answer in the same way what the terms ask for. -/
theorem addTerms (tree : Expr α) (bound : Bindings α)
    (varianceOf : Measurement α → Evaluation σ α (Option (Quantity α)))
    (varianceOf' : Measurement α → Evaluation σ' α (Option (Quantity α)))
    (dependencies : List (Measurement α))
    (hstores : ∀ dependency ∈ dependencies, ∀ symbol, dependency.symbol? = some symbol →
      Related R (derivative tree symbol) (derivative tree symbol))
    (h : ∀ dependency ∈ dependencies,
      Related R (varianceOf dependency) (varianceOf' dependency)) :
    ∀ total, Related R (Evaluation.addTerms tree bound varianceOf dependencies total)
      (Evaluation.addTerms tree bound varianceOf' dependencies total) := by
  induction dependencies with
  | nil => exact fun total => Related.pure (some total)
  | cons dependency rest ih =>
      intro total
      have hrest := ih (fun other hother => hstores other (List.mem_cons_of_mem _ hother))
        (fun other hother => h other (List.mem_cons_of_mem _ hother))
      rw [Evaluation.addTerms, Evaluation.addTerms]
      cases hsymbol : dependency.symbol? with
      | none => exact hrest total
      | some symbol =>
          refine Related.bind _ _ _ _ (h dependency List.mem_cons_self) (fun variance? => ?_)
          cases variance? with
          | none => exact Related.pure none
          | some variance =>
              have hderivative := hstores dependency List.mem_cons_self symbol hsymbol
              simp only
              split
              · exact hrest total
              · refine Related.bind _ _ _ _ ?_ fun contribution =>
                  Related.bind _ _ _ _ (Related.ofExcept _) hrest
                refine Related.bind _ _ _ _ hderivative fun slope => ?_
                refine Related.bind _ _ _ _ (Related.ofExcept _) fun value => ?_
                exact Related.bind _ _ _ _ (Related.ofExcept _) fun square => Related.ofExcept _

theorem compositeVariance (meanOf varianceOf : Measurement α → Evaluation σ α (Option (Quantity α)))
    (meanOf' varianceOf' : Measurement α → Evaluation σ' α (Option (Quantity α)))
    (hstores : ∀ tree dependencies, m.tree (α := α) = .ok tree →
      g.dependencies m = .ok dependencies → ∀ dependency ∈ dependencies, ∀ symbol,
        dependency.symbol? = some symbol →
          Related R (derivative (.ofDecimals tree) symbol) (derivative (.ofDecimals tree) symbol))
    (hmeans : ∀ other, g.References (.composite m) other →
      Related R (meanOf other) (meanOf' other))
    (hvariances : ∀ other, g.References (.composite m) other →
      Related R (varianceOf other) (varianceOf' other)) :
    Related R (Evaluation.compositeVariance g meanOf varianceOf m)
      (Evaluation.compositeVariance g meanOf' varianceOf' m) := by
  refine Related.ofExcept_bind _ _ _ fun tree htree => ?_
  refine Related.bind _ _ _ _ (Related.bindings g m meanOf meanOf' hmeans) fun bound? => ?_
  cases bound? with
  | none => exact Related.pure none
  | some bound =>
      refine Related.bind _ _ _ _ (Related.ofExcept _) fun mean => ?_
      refine Related.bind _ _ _ _ (Related.ofExcept _) fun unit => ?_
      refine Related.ofExcept_bind _ _ _ fun dependencies hdependencies => ?_
      refine Related.addTerms _ bound _ _ dependencies
        (hstores tree dependencies htree hdependencies) (fun dependency hmem => ?_) _
      exact hvariances dependency
        (g.references_of_mem_dependencies m dependencies hdependencies dependency hmem)

end Composites

end Related

section Paths

/-- Relations of contexts on one path that remember the same means. They are kept when both
    remember another one, when both enter a measurement, and when both leave it. -/
structure OnPaths (R : List (RecordId × String) → Context σ α → Context σ' α → Prop) : Prop where
  path_eq : ∀ path context other, R path context other → context.path = path ∧ other.path = path
  means_eq : ∀ path context other, R path context other → context.means = other.means
  remember : ∀ path context other means, R path context other →
    R path { context with means } { other with means }
  enter : ∀ path context other entry, R path context other →
    R (path ++ [entry]) { context with path := path ++ [entry] }
      { other with path := path ++ [entry] }
  leave : ∀ path context other entry, R (path ++ [entry]) context other →
    R path (leave context) (leave other)

variable {R : List (RecordId × String) → Context σ α → Context σ' α → Prop}
  {path : List (RecordId × String)}

namespace Related

theorem cycle (hR : OnPaths R) (m : CompositeMeasurement) :
    Related (β := β) (R path) (Evaluation.cycle m) (Evaluation.cycle m) := by
  intro context other h
  rcases hR.path_eq path context other h with ⟨hpath, hpath'⟩
  rw [run_cycle, run_cycle, hpath, hpath']
  exact ⟨rfl, h⟩

/-- On a path with the measurement both fail like a cycle. -/
theorem closed (hR : OnPaths R) (m : CompositeMeasurement) (x : Evaluation σ α β)
    (y : Evaluation σ' α β) (hx : Closes m x) (hy : Closes m y)
    (hclosed : m.id ∈ path.map Prod.fst) : Related (R path) x y := by
  intro context other h
  rcases hR.path_eq path context other h with ⟨hpath, hpath'⟩
  rw [hx context (hpath ▸ hclosed), hy other (hpath' ▸ hclosed)]
  exact Related.cycle hR m context other h

/-- Off the path both enter the measurement, and both leave it again. On the path both fail. -/
theorem within (hR : OnPaths R) (m : CompositeMeasurement) (x : Evaluation σ α β)
    (y : Evaluation σ' α β)
    (h : m.id ∉ path.map Prod.fst → Related (R (path ++ [m.entry])) x y) :
    Related (R path) (Evaluation.within m x) (Evaluation.within m y) := by
  by_cases hclosed : m.id ∈ path.map Prod.fst
  · exact Related.closed hR m _ _ (closes_within m x) (closes_within m y) hclosed
  · intro context other hcontext
    rcases hR.path_eq path context other hcontext with ⟨hpath, hpath'⟩
    rw [run_within_of_not_mem m x context (hpath ▸ hclosed),
      run_within_of_not_mem m y other (hpath' ▸ hclosed), hpath, hpath']
    rcases h hclosed _ _ (hR.enter path context other m.entry hcontext) with ⟨houtcome, hnext⟩
    exact ⟨houtcome, hR.leave path _ _ m.entry hnext⟩

/-- Both have found the mean before, or both find it and remember it. -/
theorem remembered (hR : OnPaths R) (id : RecordId) (x : Evaluation σ α (Option (Quantity α)))
    (y : Evaluation σ' α (Option (Quantity α))) (h : Related (R path) x y) :
    Related (R path) (Evaluation.remembered id x) (Evaluation.remembered id y) := by
  intro context other hcontext
  rw [run_remembered, run_remembered, hR.means_eq path context other hcontext]
  cases other.means.lookup id with
  | some known => exact ⟨rfl, hcontext⟩
  | none =>
      have hrun := h context other hcontext
      generalize x.run context = ending at hrun ⊢
      generalize y.run other = ending' at hrun ⊢
      rcases ending with ⟨outcome, next⟩
      rcases ending' with ⟨outcome', next'⟩
      rcases hrun with ⟨rfl, hnext⟩
      -- Successes only are remembered, so the two tables stay the same.
      cases outcome with
      | error e => exact ⟨rfl, hnext⟩
      | ok value =>
          refine ⟨rfl, ?_⟩
          simp only
          rw [hR.means_eq path next next' hnext]
          exact hR.remember path next next' _ hnext

/-- Means need nothing but the path and the means that have been found. -/
theorem mean [Scalar α] (hR : OnPaths R) (g : Graph α) (fuel : Nat) :
    ∀ path m, Related (R path) (Evaluation.mean g fuel m) (Evaluation.mean g fuel m) := by
  induction fuel with
  | zero =>
      intro path m
      cases m with
      | direct m => exact Related.remembered hR m.id _ _ (Related.ofExcept _)
      | composite m => exact Related.remembered hR m.id _ _ (Related.cycle hR m)
  | succ fuel ih =>
      intro path m
      cases m with
      | direct m => exact Related.remembered hR m.id _ _ (Related.ofExcept _)
      | composite m =>
          exact Related.remembered hR m.id _ _ (Related.within hR m _ _ fun _ =>
            Related.compositeMean g m _ _ fun other _ => ih _ other)

end Related

end Paths

end Metrology.Evaluation
