import Metrology.Proofs.Propagation.Related

/-!
# Enough fuel

More fuel than there are composite measurements makes no difference. No identifier is on
the path of an evaluation twice, and all of them are identifiers of composite
measurements. So on a path of full length the next composite measurement is there already,
and entering it closes a cycle like running out of fuel does. This holds of every graph,
also of one in which identifiers or symbols are not distinct.

Two computations coincide on a path if they do the same in every context on it. Each of
them takes off the path what it has put there, whether or not it fails, so what follows is
on the same path again.

## Main definitions

* `Graph.Route`: What an evaluation knows of the path it is on in any graph.
* `Evaluation.OnPath`, `Evaluation.Coincide`: One context on a path, and computations that
  do the same in each of them.

## Theorems

* `Graph.Route.enter`, `Graph.Route.closed`: A route gets longer, and it closes when it is
  full.
* `Evaluation.Related.descend`: The induction over the length of the path.
* `Evaluation.mean_enough`, `Evaluation.combinedVariance_enough`,
  `Evaluation.minDigits_enough`: More fuel makes no difference.
-/

namespace Metrology

variable {σ σ' α β : Type}

namespace Graph

/-- What an evaluation knows of the path it is on, also where identifiers are not
    distinct. -/
structure Route (g : Graph α) (start : Measurement α) (path : List (RecordId × String))
    (m : Measurement α) : Prop where
  distinct : (path.map Prod.fst).Nodup
  listed : path.map Prod.fst ⊆ compositeIds (start :: g.measurements)
  mem : m ∈ start :: g.measurements

theorem Route.start (g : Graph α) (m : Measurement α) : g.Route m [] m where
  distinct := List.nodup_nil
  listed := List.nil_subset _
  mem := List.mem_cons_self

/-- On a route that is not closed another measurement can be entered. -/
theorem Route.entered (g : Graph α) (start : Measurement α) (path : List (RecordId × String))
    (m : CompositeMeasurement) (h : g.Route start path (.composite m))
    (hnew : m.id ∉ path.map Prod.fst) :
    ((path ++ [m.entry]).map Prod.fst).Nodup ∧
      (path ++ [m.entry]).map Prod.fst ⊆ compositeIds (start :: g.measurements) := by
  rw [List.map_append, List.map_singleton]
  constructor
  · exact List.Nodup.append h.distinct (List.nodup_singleton _) (List.disjoint_singleton.mpr hnew)
  · exact List.append_subset.mpr
      ⟨h.listed, List.cons_subset.mpr ⟨mem_compositeIds _ m h.mem, List.nil_subset _⟩⟩

/-- Entering a measurement lengthens the route. -/
theorem Route.enter (g : Graph α) (start : Measurement α) (path : List (RecordId × String))
    (m : CompositeMeasurement) (next : Measurement α) (h : g.Route start path (.composite m))
    (hnew : m.id ∉ path.map Prod.fst) (href : g.References (.composite m) next) :
    g.Route start (path ++ [m.entry]) next where
  distinct := (h.entered g start path m hnew).1
  listed := (h.entered g start path m hnew).2
  mem := List.mem_cons_of_mem _ href.mem

/-- On a route of full length the next measurement is there already. -/
theorem Route.closed (g : Graph α) (start : Measurement α) (path : List (RecordId × String))
    (m : CompositeMeasurement) (h : g.Route start path (.composite m))
    (hfull : g.depth start ≤ path.length) : m.id ∈ path.map Prod.fst :=
  g.mem_of_full start _ m.id h.distinct h.listed (mem_compositeIds _ m h.mem)
    (by rw [List.length_map]; exact hfull)

end Graph

namespace Evaluation

section Descent

variable {R : List (RecordId × String) → Context σ α → Context σ' α → Prop}

/-- The induction over what is left of the longest route, for two recursions over the graph.
    On a route that is closed both of them fail; otherwise there is fuel left for one more
    measurement. -/
theorem Related.descend (g : Graph α) (start : Measurement α)
    (f : Nat → Measurement α → Evaluation σ α β) (f' : Nat → Measurement α → Evaluation σ' α β)
    (hdirect : ∀ path fuel fuel' d, Related (R path) (f fuel (.direct d)) (f' fuel' (.direct d)))
    (hclosed : ∀ path fuel fuel' m, m.id ∈ path.map Prod.fst →
      Related (R path) (f fuel (.composite m)) (f' fuel' (.composite m)))
    (hstep : ∀ left path fuel fuel' m, g.Route start path (.composite m) →
      m.id ∉ path.map Prod.fst → left ≤ fuel → left ≤ fuel' →
      (∀ other, g.References (.composite m) other →
        g.Route start (path ++ [m.entry]) other ∧
          g.depth start ≤ (path ++ [m.entry]).length + left ∧
            Related (R (path ++ [m.entry])) (f fuel other) (f' fuel' other)) →
      Related (R path) (f (fuel + 1) (.composite m)) (f' (fuel' + 1) (.composite m)))
    (left : Nat) :
    ∀ path m, g.Route start path m → g.depth start ≤ path.length + left →
      ∀ fuel fuel', left ≤ fuel → left ≤ fuel' → Related (R path) (f fuel m) (f' fuel' m) := by
  induction left with
  | zero =>
      intro path m hroute hlimit fuel fuel' _ _
      cases m with
      | direct d => exact hdirect path fuel fuel' d
      | composite m => exact hclosed path fuel fuel' m (hroute.closed g start path m hlimit)
  | succ left ih =>
      intro path m hroute hlimit fuel fuel' hfuel hfuel'
      cases m with
      | direct d => exact hdirect path fuel fuel' d
      | composite m =>
          by_cases hmem : m.id ∈ path.map Prod.fst
          · exact hclosed path fuel fuel' m hmem
          · rcases Nat.exists_eq_add_of_le' hfuel with ⟨more, rfl⟩
            rcases Nat.exists_eq_add_of_le' hfuel' with ⟨more', rfl⟩
            refine hstep left path (more + left) (more' + left) m hroute hmem
              (Nat.le_add_left _ _) (Nat.le_add_left _ _) (fun other href => ?_)
            have hother := hroute.enter g start path m other hmem href
            have hlength : g.depth start ≤ (path ++ [m.entry]).length + left := by
              rw [List.length_append, List.length_singleton]
              omega
            exact ⟨hother, hlength, ih _ other hother hlength _ _ (Nat.le_add_left _ _)
              (Nat.le_add_left _ _)⟩

end Descent

section Coincidence

/-- Computations that do the same in every context on a path, and come back to it. -/
def Coincide (path : List (RecordId × String)) (x y : Evaluation σ α β) : Prop :=
  ∀ context, context.path = path →
    x.run context = y.run context ∧ (y.run context).2.path = path

/-- One context on a path. -/
def OnPath (path : List (RecordId × String)) (context other : Context σ α) : Prop :=
  context = other ∧ other.path = path

theorem onPath_onPaths : OnPaths (OnPath (σ := σ) (α := α)) where
  path_eq := by
    rintro path context _ ⟨rfl, hpath⟩
    exact ⟨hpath, hpath⟩
  means_eq := by
    rintro path context _ ⟨rfl, -⟩
    rfl
  remember := by
    rintro path context _ means ⟨rfl, hpath⟩
    exact ⟨rfl, hpath⟩
  enter := by
    rintro path context _ entry ⟨rfl, -⟩
    exact ⟨rfl, rfl⟩
  leave := by
    rintro path context _ entry ⟨rfl, hpath⟩
    exact ⟨rfl, by rw [leave, hpath, List.dropLast_concat]⟩

theorem coincide_of_related (path : List (RecordId × String)) (x y : Evaluation σ α β)
    (h : Related (OnPath path) x y) : Coincide path x y := by
  intro context hpath
  rcases h context context ⟨rfl, hpath⟩ with ⟨houtcome, hcontext, hnext⟩
  exact ⟨Prod.ext houtcome hcontext, hnext⟩

/-- One store answers in one way. -/
theorem derivative_onPath [DerivativeStore σ α] (path : List (RecordId × String)) (tree : Expr α)
    (symbol : String) :
    Related (OnPath (σ := σ) path) (derivative tree symbol) (derivative tree symbol) := by
  rintro context _ ⟨rfl, hpath⟩
  exact ⟨rfl, rfl, hpath⟩

end Coincidence

section Digits

theorem closes_minDigits (g : Graph α) (fuel : Nat) (m : CompositeMeasurement) :
    Closes m (minDigits (σ := σ) g fuel (.composite m)) := by
  cases fuel with
  | zero => exact closes_cycle m
  | succ fuel => exact closes_within m _

/-- Counting digits coincides for as much fuel as the rest of the longest route, or more. -/
theorem minDigits_coincide (g : Graph α) (start : Measurement α) (left : Nat) :
    ∀ path m, g.Route start path m → g.depth start ≤ path.length + left →
      ∀ fuel fuel', left ≤ fuel → left ≤ fuel' →
        Coincide (σ := σ) path (minDigits g fuel m) (minDigits g fuel' m) := by
  intro path m hroute hlimit fuel fuel' hfuel hfuel'
  refine coincide_of_related path _ _ (Related.descend g start (minDigits g) (minDigits g)
    ?_ ?_ ?_ left path m hroute hlimit fuel fuel' hfuel hfuel')
  · intro path fuel fuel' d
    rw [minDigits, minDigits]
    exact Related.pure _
  · intro path fuel fuel' m hclosed
    exact Related.closed onPath_onPaths m _ _ (closes_minDigits g fuel m)
      (closes_minDigits g fuel' m) hclosed
  · intro left path fuel fuel' m _ _ _ _ ih
    rw [minDigits, minDigits]
    exact Related.within onPath_onPaths m _ _ fun _ =>
      Related.compositeMinDigits g m _ _ fun other href => (ih other href).2.2

/-- More fuel than there are composite measurements makes no difference to a count. -/
theorem minDigits_enough (g : Graph α) (m : Measurement α) (fuel : Nat) (h : g.depth m ≤ fuel) :
    Coincide (σ := σ) [] (minDigits g (g.depth m) m) (minDigits g fuel m) :=
  minDigits_coincide g m (g.depth m) [] m (.start g m) (Nat.le_add_left _ _) _ _ (Nat.le_refl _) h

end Digits

variable [Scalar α]

theorem mean_eq_remembered (g : Graph α) (fuel : Nat) (m : CompositeMeasurement) :
    ∃ x, mean (σ := σ) g fuel (.composite m) = remembered m.id x ∧ Closes m x := by
  cases fuel with
  | zero => exact ⟨_, rfl, closes_cycle m⟩
  | succ fuel => exact ⟨_, rfl, closes_within m _⟩

/-- Means are related for as much fuel as the rest of the longest route, or more. -/
theorem mean_related (g : Graph α) (start : Measurement α) (left : Nat) :
    ∀ path m, g.Route start path m → g.depth start ≤ path.length + left →
      ∀ fuel fuel', left ≤ fuel → left ≤ fuel' →
        Related (OnPath (σ := σ) path) (mean g fuel m) (mean g fuel' m) := by
  refine Related.descend g start (mean g) (mean g) ?_ ?_ ?_ left
  · intro path fuel fuel' d
    rw [mean, mean]
    exact Related.remembered onPath_onPaths d.id _ _ (Related.ofExcept _)
  · intro path fuel fuel' m hclosed
    rcases mean_eq_remembered (σ := σ) g fuel m with ⟨x, hx, hcloses⟩
    rcases mean_eq_remembered (σ := σ) g fuel' m with ⟨y, hy, hcloses'⟩
    rw [hx, hy]
    exact Related.remembered onPath_onPaths m.id x y
      (Related.closed onPath_onPaths m x y hcloses hcloses' hclosed)
  · intro left path fuel fuel' m _ _ _ _ ih
    rw [mean, mean]
    exact Related.remembered onPath_onPaths m.id _ _ (Related.within onPath_onPaths m _ _ fun _ =>
      Related.compositeMean g m _ _ fun other href => (ih other href).2.2)

/-- Means coincide for as much fuel as the rest of the longest route, or more. -/
theorem mean_coincide (g : Graph α) (start : Measurement α) (left : Nat) :
    ∀ path m, g.Route start path m → g.depth start ≤ path.length + left →
      ∀ fuel fuel', left ≤ fuel → left ≤ fuel' →
        Coincide (σ := σ) path (mean g fuel m) (mean g fuel' m) :=
  fun path m hroute hlimit fuel fuel' hfuel hfuel' => coincide_of_related path _ _
    (mean_related g start left path m hroute hlimit fuel fuel' hfuel hfuel')

/-- More fuel than there are composite measurements makes no difference to a mean. -/
theorem mean_enough (g : Graph α) (m : Measurement α) (fuel : Nat) (h : g.depth m ≤ fuel) :
    Coincide (σ := σ) [] (mean g (g.depth m) m) (mean g fuel m) :=
  mean_coincide g m (g.depth m) [] m (.start g m) (Nat.le_add_left _ _) _ _ (Nat.le_refl _) h

variable [DerivativeStore σ α]

theorem closes_combinedVariance (g : Graph α) (types : UncertaintyTypes) (fuel : Nat)
    (m : CompositeMeasurement) :
    Closes m (combinedVariance (σ := σ) g types fuel (.composite m)) := by
  cases fuel with
  | zero => exact closes_cycle m
  | succ fuel => exact closes_within m _

/-- Variances coincide for as much fuel as the rest of the longest route, or more. -/
theorem combinedVariance_coincide (g : Graph α) (types : UncertaintyTypes)
    (start : Measurement α) (left : Nat) :
    ∀ path m, g.Route start path m → g.depth start ≤ path.length + left →
      ∀ fuel fuel', left ≤ fuel → left ≤ fuel' →
        Coincide (σ := σ) path (combinedVariance g types fuel m)
          (combinedVariance g types fuel' m) := by
  intro path m hroute hlimit fuel fuel' hfuel hfuel'
  refine coincide_of_related path _ _ (Related.descend g start (combinedVariance g types)
    (combinedVariance g types) ?_ ?_ ?_ left path m hroute hlimit fuel fuel' hfuel hfuel')
  · intro path fuel fuel' d
    rw [combinedVariance, combinedVariance]
    exact Related.ofExcept _
  · intro path fuel fuel' m hclosed
    exact Related.closed onPath_onPaths m _ _ (closes_combinedVariance g types fuel m)
      (closes_combinedVariance g types fuel' m) hclosed
  · intro left path fuel fuel' m _ _ hfuel hfuel' ih
    rw [combinedVariance, combinedVariance]
    refine Related.within onPath_onPaths m _ _ fun _ =>
      Related.compositeVariance g m _ _ _ _ ?_ ?_ ?_
    · intros
      exact derivative_onPath _ _ _
    · -- The means of the dependencies are asked for with the same fuel, on the same path.
      intro other href
      rcases ih other href with ⟨hroute, hlimit, -⟩
      exact mean_related g start left _ other hroute hlimit fuel fuel' hfuel hfuel'
    · exact fun other href => (ih other href).2.2

/-- More fuel than there are composite measurements makes no difference to a variance. -/
theorem combinedVariance_enough (g : Graph α) (types : UncertaintyTypes) (m : Measurement α)
    (fuel : Nat) (h : g.depth m ≤ fuel) :
    Coincide (σ := σ) [] (combinedVariance g types (g.depth m) m)
      (combinedVariance g types fuel m) :=
  combinedVariance_coincide g types m (g.depth m) [] m (.start g m) (Nat.le_add_left _ _) _ _
    (Nat.le_refl _) h

end Evaluation

end Metrology
