import Metrology.Proofs.Propagation.Depth

/-!
# Evaluations on short paths

An evaluation comes to an end on every list of measurements, also where formulas refer to
each other in circles and where identifiers or symbols are not distinct. What bounds it is
the path. A measurement that is entered is not on it yet, and all that are entered are the
one in question or in the list. So the path never gets longer than there are identifiers of
composite measurements in the list, and one more.

To speak of all paths that an evaluation is on, it is watched. The recursions are made again
with a store that also keeps the path each time a measurement has been put on it. What they
do when they run out of fuel is told apart from a cycle as well: they enter one more
measurement, and say so. Nothing else is different, and the watch is never looked at. Fuel
of the size of the bound is then enough, and what is found is what a propagator answers.

## Main definitions

* `Watch`, `Watch.Within`: A store with the paths that have been seen, and what is true of
  them.
* `Evaluation.watchedMean`, `Evaluation.watchedVariance`, `Evaluation.watchedMinDigits`: The
  recursions under watch.
* `Evaluation.Watches`: A context under watch beside one that is not.

## Theorems

* `Graph.depth_le`: The bound, by the list.
* `Evaluation.Related.watched_within`: The step in which both are on a longer path.
* `Evaluation.watchedMean_related`, `Evaluation.watchedVariance_related`,
  `Evaluation.watchedMinDigits_related`: Watching changes nothing, and paths are short.
* `Propagator.evaluation_bounded`: The questions to a propagator.
-/

namespace Metrology

variable {σ α β : Type}

/-- A store, the paths that an evaluation has been on, and whether it ran out of fuel. -/
structure Watch (σ : Type) where
  store : σ
  paths : List (List RecordId)
  exhausted : Bool

namespace Watch

/-- A watch that has seen nothing yet. -/
def start (store : σ) : Watch σ := ⟨store, [], false⟩

/-- Sees a path. -/
def see (path : List RecordId) (watch : Watch σ) : Watch σ :=
  { watch with paths := path :: watch.paths }

/-- Sees fuel run out. -/
def exhaust (watch : Watch σ) : Watch σ := { watch with exhausted := true }

/-- No path that has been seen is longer than a limit or has an identifier on it twice, and
    fuel has not run out. -/
structure Within (limit : Nat) (watch : Watch σ) : Prop where
  distinct : ∀ path ∈ watch.paths, path.Nodup
  short : ∀ path ∈ watch.paths, path.length ≤ limit
  fuel : watch.exhausted = false

theorem within_start (limit : Nat) (store : σ) : (start store).Within limit where
  distinct _ h := absurd h List.not_mem_nil
  short _ h := absurd h List.not_mem_nil
  fuel := rfl

theorem Within.see (limit : Nat) (watch : Watch σ) (h : watch.Within limit)
    (path : List RecordId) (hdistinct : path.Nodup) (hshort : path.length ≤ limit) :
    (watch.see path).Within limit where
  distinct := List.forall_mem_cons.mpr ⟨hdistinct, h.distinct⟩
  short := List.forall_mem_cons.mpr ⟨hshort, h.short⟩
  fuel := h.fuel

instance [DerivativeStore σ α] : DerivativeStore (Watch σ) α where
  derivative watch tree symbol :=
    let (found, store) := DerivativeStore.derivative watch.store tree symbol
    (found, { watch with store })

end Watch

namespace Evaluation

/-- A computation on a path that is seen first. -/
def watched (body : Evaluation (Watch σ) α β) : Evaluation (Watch σ) α β := do
  modify fun context =>
    { context with store := context.store.see (context.path.map Prod.fst) }
  body

theorem run_watched (body : Evaluation (Watch σ) α β) (context : Context (Watch σ) α) :
    (watched body).run context =
      body.run { context with store := context.store.see (context.path.map Prod.fst) } := rfl

/-- Runs out of fuel. -/
def exhausted (m : CompositeMeasurement) : Evaluation (Watch σ) α β := do
  modify fun context => { context with store := context.store.exhaust }
  cycle m

/-- The fewest digits below a measurement, under watch. -/
def watchedMinDigits (g : Graph α) : (fuel : Nat) → Measurement α → Evaluation (Watch σ) α Nat
  | _, .direct m => return m.minDigits
  | 0, .composite m => within m (watched (exhausted m))
  | fuel + 1, .composite m => within m (watched (compositeMinDigits g (watchedMinDigits g fuel) m))

section Recursions

variable [Scalar α]

/-- The mean of a measurement, under watch. -/
def watchedMean (g : Graph α) :
    (fuel : Nat) → Measurement α → Evaluation (Watch σ) α (Option (Quantity α))
  | _, .direct m => remembered m.id (ofExcept (directMean m))
  | 0, .composite m => remembered m.id (within m (watched (exhausted m)))
  | fuel + 1, .composite m =>
    remembered m.id (within m (watched (compositeMean g (watchedMean g fuel) m)))

/-- The variance of a measurement, under watch. -/
def watchedVariance [DerivativeStore σ α] (g : Graph α) (types : UncertaintyTypes) :
    (fuel : Nat) → Measurement α → Evaluation (Watch σ) α (Option (Quantity α))
  | _, .direct m => ofExcept (directVariance m types)
  | 0, .composite m => within m (watched (exhausted m))
  | fuel + 1, .composite m =>
    within m (watched
      (compositeVariance g (watchedMean g fuel) (watchedVariance g types fuel) m))

end Recursions

end Evaluation

namespace Graph

theorem nodup_eraseDups (ids : List RecordId) : ids.eraseDups.Nodup := by
  cases ids with
  | nil => exact List.nodup_nil
  | cons id rest =>
      rw [List.eraseDups_cons, List.nodup_cons, List.mem_eraseDups]
      exact ⟨by simp, nodup_eraseDups _⟩
termination_by ids.length
decreasing_by exact Nat.lt_succ_of_le (List.length_filter_le _ _)

/-- A measurement that is asked about adds one identifier to those of the list at most. -/
theorem depth_le (g : Graph α) (m : Measurement α) :
    g.depth m ≤ (compositeIds g.measurements).length + 1 := by
  have hlisted : compositeIds (m :: g.measurements) ⊆ m.id :: compositeIds g.measurements := by
    intro id hid
    rw [compositeIds, List.mem_eraseDups, List.mem_filterMap] at hid
    rcases hid with ⟨other, hother, hid⟩
    cases other with
    | direct d => cases hid
    | composite c =>
        cases hid
        rcases List.mem_cons.mp hother with rfl | hother
        · exact List.mem_cons_self
        · exact List.mem_cons_of_mem _ (mem_compositeIds _ c hother)
  have hlength := (List.subperm_of_subset (nodup_eraseDups _) hlisted).length_le
  rwa [List.length_cons] at hlength

end Graph

namespace Evaluation

/-- A context under watch on a path, and the same one without the watch. The watch has seen
    short paths only. -/
structure Watches (limit : Nat) (path : List (RecordId × String)) (context : Context (Watch σ) α)
    (plain : Context σ α) : Prop where
  path_eq : context.path = path
  plain_eq : plain = ⟨context.path, context.means, context.store.store⟩
  within : context.store.Within limit

variable {limit : Nat} {path : List (RecordId × String)}

theorem Watches.onPaths (limit : Nat) : OnPaths (Watches (σ := σ) (α := α) limit) where
  path_eq := by
    rintro path context _ ⟨hpath, rfl, -⟩
    exact ⟨hpath, hpath⟩
  means_eq := by
    rintro path context _ ⟨-, rfl, -⟩
    rfl
  remember := by
    rintro path context _ means ⟨hpath, rfl, hwithin⟩
    exact ⟨hpath, rfl, hwithin⟩
  enter := by
    rintro path context _ entry ⟨-, rfl, hwithin⟩
    exact ⟨rfl, rfl, hwithin⟩
  leave := by
    rintro path context _ entry ⟨hpath, rfl, hwithin⟩
    exact ⟨by rw [leave, hpath, List.dropLast_concat], rfl, hwithin⟩

namespace Related

/-- The path that is seen is a short one. -/
theorem watched (x : Evaluation (Watch σ) α β) (y : Evaluation σ α β)
    (hdistinct : (path.map Prod.fst).Nodup) (hshort : path.length ≤ limit)
    (h : Related (Watches limit path) x y) :
    Related (Watches limit path) (Evaluation.watched x) y := by
  rintro context plain ⟨hpath, hplain, hwithin⟩
  rw [run_watched]
  exact h _ plain ⟨hpath, hplain, hwithin.see limit _ _ (hpath ▸ hdistinct)
    (by rwa [hpath, List.length_map])⟩

/-- Both enter a measurement on a route that is not closed, and the path is seen. -/
theorem watched_within (g : Graph α) (start : Measurement α) (m : CompositeMeasurement)
    (x : Evaluation (Watch σ) α β) (y : Evaluation σ α β) (hlimit : g.depth start ≤ limit)
    (hroute : g.Route start path (.composite m)) (hnew : m.id ∉ path.map Prod.fst)
    (h : Related (Watches limit (path ++ [m.entry])) x y) :
    Related (Watches limit path) (Evaluation.within m (Evaluation.watched x))
      (Evaluation.within m y) := by
  rcases hroute.entered g start path m hnew with ⟨hdistinct, hlisted⟩
  refine Related.within (Watches.onPaths limit) m _ y fun _ => h.watched x y hdistinct ?_
  have hlength := (List.subperm_of_subset hdistinct hlisted).length_le
  rw [List.length_map] at hlength
  exact Nat.le_trans hlength hlimit

end Related

section Digits

theorem closes_watchedMinDigits (g : Graph α) (fuel : Nat) (m : CompositeMeasurement) :
    Closes m (watchedMinDigits (σ := σ) g fuel (.composite m)) := by
  cases fuel <;> exact closes_within m _

/-- Watching changes no count of digits. -/
theorem watchedMinDigits_related (g : Graph α) (start : Measurement α)
    (hlimit : g.depth start ≤ limit) (left : Nat) :
    ∀ path m, g.Route start path m → g.depth start ≤ path.length + left →
      ∀ fuel fuel', left ≤ fuel → left ≤ fuel' →
        Related (Watches (σ := σ) limit path) (watchedMinDigits g fuel m) (minDigits g fuel' m) := by
  refine Related.descend g start (watchedMinDigits g) (minDigits g) ?_ ?_ ?_ left
  · intro path fuel fuel' d
    rw [watchedMinDigits, minDigits]
    exact Related.pure _
  · intro path fuel fuel' m hclosed
    exact Related.closed (Watches.onPaths limit) m _ _ (closes_watchedMinDigits g fuel m)
      (closes_minDigits g fuel' m) hclosed
  · intro left path fuel fuel' m hroute hnew _ _ ih
    rw [watchedMinDigits, minDigits]
    exact Related.watched_within g start m _ _ hlimit hroute hnew
      (Related.compositeMinDigits g m _ _ fun other href => (ih other href).2.2)

end Digits

variable [Scalar α]

theorem watchedMean_eq_remembered (g : Graph α) (fuel : Nat) (m : CompositeMeasurement) :
    ∃ x, watchedMean (σ := σ) g fuel (.composite m) = remembered m.id x ∧ Closes m x := by
  cases fuel <;> exact ⟨_, rfl, closes_within m _⟩

/-- Watching changes no mean. -/
theorem watchedMean_related (g : Graph α) (start : Measurement α)
    (hlimit : g.depth start ≤ limit) (left : Nat) :
    ∀ path m, g.Route start path m → g.depth start ≤ path.length + left →
      ∀ fuel fuel', left ≤ fuel → left ≤ fuel' →
        Related (Watches (σ := σ) limit path) (watchedMean g fuel m) (mean g fuel' m) := by
  refine Related.descend g start (watchedMean g) (mean g) ?_ ?_ ?_ left
  · intro path fuel fuel' d
    rw [watchedMean, mean]
    exact Related.remembered (Watches.onPaths limit) d.id _ _ (Related.ofExcept _)
  · intro path fuel fuel' m hclosed
    rcases watchedMean_eq_remembered (σ := σ) g fuel m with ⟨x, hx, hcloses⟩
    rcases mean_eq_remembered (σ := σ) g fuel' m with ⟨y, hy, hcloses'⟩
    rw [hx, hy]
    exact Related.remembered (Watches.onPaths limit) m.id x y
      (Related.closed (Watches.onPaths limit) m x y hcloses hcloses' hclosed)
  · intro left path fuel fuel' m hroute hnew _ _ ih
    rw [watchedMean, mean]
    refine Related.remembered (Watches.onPaths limit) m.id _ _ ?_
    exact Related.watched_within g start m _ _ hlimit hroute hnew
      (Related.compositeMean g m _ _ fun other href => (ih other href).2.2)

variable [DerivativeStore σ α]

theorem closes_watchedVariance (g : Graph α) (types : UncertaintyTypes) (fuel : Nat)
    (m : CompositeMeasurement) :
    Closes m (watchedVariance (σ := σ) g types fuel (.composite m)) := by
  cases fuel <;> exact closes_within m _

/-- Watching changes no variance. -/
theorem watchedVariance_related (g : Graph α) (types : UncertaintyTypes) (start : Measurement α)
    (hlimit : g.depth start ≤ limit) (left : Nat) :
    ∀ path m, g.Route start path m → g.depth start ≤ path.length + left →
      ∀ fuel fuel', left ≤ fuel → left ≤ fuel' →
        Related (Watches (σ := σ) limit path) (watchedVariance g types fuel m)
          (combinedVariance g types fuel' m) := by
  refine Related.descend g start (watchedVariance g types) (combinedVariance g types) ?_ ?_ ?_ left
  · intro path fuel fuel' d
    rw [watchedVariance, combinedVariance]
    exact Related.ofExcept _
  · intro path fuel fuel' m hclosed
    exact Related.closed (Watches.onPaths limit) m _ _ (closes_watchedVariance g types fuel m)
      (closes_combinedVariance g types fuel' m) hclosed
  · intro left path fuel fuel' m hroute hnew hfuel hfuel' ih
    rw [watchedVariance, combinedVariance]
    refine Related.watched_within g start m _ _ hlimit hroute hnew
      (Related.compositeVariance g m _ _ _ _ ?_ ?_ ?_)
    · rintro tree dependencies - - dependency - symbol - context _ ⟨hpath, rfl, hwithin⟩
      exact ⟨rfl, hpath, rfl, hwithin.distinct, hwithin.short, hwithin.fuel⟩
    · -- The means are found on the same path as the variances, with the measurement on it.
      intro other href
      rcases ih other href with ⟨hroute, hdepth, -⟩
      exact watchedMean_related g start hlimit left _ other hroute hdepth fuel fuel' hfuel hfuel'
    · exact fun other href => (ih other href).2.2

end Evaluation

namespace Propagator

open Evaluation

/-- A question that is answered as a computation under watch answers it, on short paths and
    with fuel left. -/
def Bounded (limit : Nat) (p : Propagator σ α) (question : Propagation σ α β)
    (x : Evaluation (Watch σ) α β) : Prop :=
  let (outcome, context) := x.run (.fresh (.start p.store))
  question.run p = (outcome, { p with store := context.store.store }) ∧
    context.store.Within limit

theorem bounded_ask (limit : Nat) (p : Propagator σ α) (all : List (Measurement α))
    (question : Graph α → Evaluation σ α β) (x : Evaluation (Watch σ) α β)
    (h : Related (Watches limit []) x (question ⟨all, p.constants⟩)) :
    Bounded limit p (ask all question) x := by
  rcases h (.fresh (.start p.store)) (.fresh p.store) ⟨rfl, rfl, Watch.within_start limit p.store⟩
    with ⟨houtcome, -, hplain, hwithin⟩
  refine ⟨?_, hwithin⟩
  have hstore := congrArg Context.store hplain
  exact Prod.ext houtcome.symm (congrArg (Propagator.mk p.constants) hstore)

variable [Scalar α] [DerivativeStore σ α]

/-- On every list of measurements the evaluation of a measurement comes to an end on short
    paths. With as much fuel as there are identifiers of composite measurements in the list,
    and one more, it never runs out, and it finds what is found with any fuel beyond that. -/
theorem evaluation_bounded (p : Propagator σ α) (all : List (Measurement α)) (m : Measurement α)
    (types : UncertaintyTypes) (more : Nat) :
    let limit := (Graph.compositeIds all).length + 1
    let g : Graph α := ⟨all, p.constants⟩
    Bounded limit p (Propagator.mean m all) (watchedMean g (limit + more) m) ∧
      Bounded limit p (Propagator.combinedVariance m all types)
        (watchedVariance g types (limit + more) m) ∧
      let (digits, context) := (watchedMinDigits g (limit + more) m).run
        (.fresh (.start (NoMemory.mk (α := α))))
      Propagator.minDigits p.constants m all = digits ∧ context.store.Within limit := by
  intro limit g
  have hlimit : g.depth m ≤ limit := g.depth_le m
  have hfuel : g.depth m ≤ limit + more := Nat.le_trans hlimit (Nat.le_add_right _ _)
  have hstart : g.depth m ≤ ([] : List (RecordId × String)).length + g.depth m :=
    Nat.le_add_left _ _
  refine ⟨bounded_ask limit p all _ _ ?_, bounded_ask limit p all _ _ ?_, ?_⟩
  · exact watchedMean_related g m hlimit _ [] m (.start g m) hstart _ _ hfuel (Nat.le_refl _)
  · exact watchedVariance_related g types m hlimit _ [] m (.start g m) hstart _ _ hfuel
      (Nat.le_refl _)
  · rcases watchedMinDigits_related g m hlimit _ [] m (.start g m) hstart _ _ hfuel (Nat.le_refl _)
      (.fresh (.start NoMemory.mk)) (.fresh NoMemory.mk)
      ⟨rfl, rfl, Watch.within_start limit _⟩ with ⟨hdigits, -, -, hwithin⟩
    exact ⟨hdigits.symm, hwithin⟩

end Propagator

end Metrology
