import Mathlib.Data.List.Nodup
import Mathlib.Data.List.Perm.Subperm
import Mathlib.Logic.Relation
import Metrology.Proofs.Propagation.Invariant

/-!
# References between measurements

The measurement graph as a graph. A composite measurement references the
measurements that the symbols of its formula mean. The evaluation follows the
resolved dependencies instead, which are the same measurements once each, as
long as no two measurements share an identifier.

An evaluation that descends into dependencies is always at the end of a walk
from the measurement it was asked about. The composite measurements of the walk
are the path in its context, and no identifier is on it twice. So the path is
no longer than there are identifiers, and when the fuel is used up, the
measurement to be entered is on the path already.

A measurement is settled when everything below it resolves and the descent
comes to an end. From a settled measurement no cycle can be reached.

## Main definitions

* `Graph.References`: One measurement's formula mentions another.
* `Graph.Reaches`: Mentioning in any number of steps.
* `Graph.Walk`: Composite measurements that lead to a measurement.
* `Graph.Approach`: What an evaluation knows of the path it is on.
* `Graph.Settled`: The measurements below which everything resolves.

## Theorems

* `Graph.mem_dependencies_iff`: Dependencies are what is referenced.
* `Graph.references_of_mem_dependencies`: They are so in every graph.
* `Graph.dependencies_eq_of_ids`: Dependencies are told by their identifiers.
* `Graph.dependencies_eq_error`: Why a formula does not resolve.
* `Graph.selfReference_of_dependencies`: When resolving finds a cycle.
* `Graph.Approach.enter`: Entering a measurement lengthens the path.
* `Graph.Approach.mem_path`: Where no measurement can be entered, a cycle closes.
* `Graph.Settled.of_reaches`, `Graph.Settled.acyclic`: Below a settled measurement
  everything is settled and nothing is on a cycle.
-/

namespace Metrology

/-- A formula without a tree is empty or cannot be read. -/
theorem CompositeMeasurement.tree_eq_error {α : Type} (m : CompositeMeasurement)
    (e : PropagationError α) (h : m.tree = .error e) :
    e = .emptyFormula ∨ ∃ cause, e = .unparsableFormula cause := by
  rw [tree] at h
  split at h
  · exact Or.inl (Except.error.inj h).symm
  · exact Or.inr ⟨_, (Except.error.inj h).symm⟩
  · cases h

namespace Graph

variable {α : Type}

/-- The formula of one measurement mentions another. -/
def References (g : Graph α) : Measurement α → Measurement α → Prop
  | .direct _, _ => False
  | .composite m, other => ∃ tree, m.tree (α := α) = .ok tree ∧
      ∃ symbol ∈ tree.freeSymbols, g.find? m symbol = some other

/-- Mentioning in any number of steps. -/
abbrev Reaches (g : Graph α) : Measurement α → Measurement α → Prop :=
  Relation.ReflTransGen g.References

/-- Being mentioned by oneself, in one or more steps. -/
def OnCycle (g : Graph α) (m : Measurement α) : Prop := Relation.TransGen g.References m m

/-- The formula of a measurement mentions its own symbol, and no other measurement
    carries that. -/
def SelfReference (g : Graph α) (m : CompositeMeasurement) (symbol : String) : Prop :=
  ∃ tree, m.tree (α := α) = .ok tree ∧ symbol ∈ tree.freeSymbols ∧
    m.name.symbol? = some symbol ∧
    ∀ other ∈ g.measurements, other.id ≠ m.id → other.symbol? ≠ some symbol

/-- No two measurements share an identifier. -/
def DistinctIds (g : Graph α) : Prop := (g.measurements.map Measurement.id).Nodup

theorem DistinctIds.eq_of_id (g : Graph α) (h : g.DistinctIds) (m other : Measurement α)
    (hm : m ∈ g.measurements) (hother : other ∈ g.measurements) (hid : m.id = other.id) :
    m = other :=
  List.inj_on_of_nodup_map h hm hother hid

section Dependencies

theorem find?_eq_some (g : Graph α) (m : CompositeMeasurement) (symbol : String)
    (other : Measurement α) (h : g.find? m symbol = some other) :
    other ∈ g.measurements ∧ other.symbol? = some symbol ∧ other.id ≠ m.id := by
  rw [find?] at h
  have htest := List.find?_some h
  simp only [Bool.and_eq_true, decide_eq_true_eq] at htest
  exact ⟨List.mem_of_find?_eq_some h, htest.1, htest.2⟩

theorem find?_eq_none (g : Graph α) (m : CompositeMeasurement) (symbol : String) :
    g.find? m symbol = none ↔
      ∀ other ∈ g.measurements, other.id ≠ m.id → other.symbol? ≠ some symbol := by
  rw [find?, List.find?_eq_none]
  simp only [Bool.and_eq_true, decide_eq_true_eq, not_and]
  exact forall₂_congr fun other _ => ⟨fun h hid hsymbol => h hsymbol hid,
    fun h hsymbol hid => h hid hsymbol⟩

/-- A symbol that means no measurement is not the measurement's own, and it is bound
    to a constant or has a value of its own. -/
def Resolved (g : Graph α) (m : CompositeMeasurement) (symbol : String) : Prop :=
  g.find? m symbol = none →
    m.name.symbol? ≠ some symbol ∧
      ((g.constants symbol).isSome ∨ (Constant.ofName? symbol).isSome)

/-- What one symbol adds. -/
theorem resolve_eq_ok (g : Graph α) (hids : g.DistinctIds) (m : CompositeMeasurement)
    (found next : List (Measurement α)) (symbol : String)
    (hfound : ∀ other ∈ found, other ∈ g.measurements)
    (h : g.resolve m found symbol = .ok next) :
    g.Resolved m symbol ∧ (∀ other ∈ next, other ∈ g.measurements) ∧
      ∀ other, other ∈ next ↔ other ∈ found ∨ g.find? m symbol = some other := by
  rw [resolve] at h
  cases hfind : g.find? m symbol with
  | some dependency =>
      rw [hfind, Except.ok.injEq] at h
      have hmem := (find?_eq_some g m symbol dependency hfind).1
      have hresolved : g.Resolved m symbol := fun hnone => by simp [hfind] at hnone
      refine ⟨hresolved, ?_⟩
      split at h
      · next hknown =>
        rw [← h]
        refine ⟨hfound, fun other => ⟨Or.inl, ?_⟩⟩
        rintro (hother | hother)
        · exact hother
        · -- Another measurement of the identifier is this one.
          rw [Option.some.injEq] at hother
          rcases List.any_eq_true.mp hknown with ⟨same, hsame, hid⟩
          rw [← hother, ← hids.eq_of_id g same dependency (hfound same hsame) hmem
            (of_decide_eq_true hid)]
          exact hsame
      · rw [← h]
        constructor
        · intro other hother
          rcases List.mem_append.mp hother with hother | hother
          · exact hfound other hother
          · rw [List.mem_singleton.mp hother]
            exact hmem
        · intro other
          rw [List.mem_append, List.mem_singleton, Option.some.injEq, eq_comm (a := other)]
  | none =>
      rw [hfind] at h
      simp only at h
      split at h
      · cases h
      · next hself =>
        split at h
        · next hconstant =>
          rw [Except.ok.injEq] at h
          rw [← h]
          refine ⟨fun _ => ⟨hself, ?_⟩, hfound, fun other => ?_⟩
          · rwa [Bool.or_eq_true] at hconstant
          · simp
        · cases h

/-- What several symbols add. -/
theorem foldlM_resolve_eq_ok (g : Graph α) (hids : g.DistinctIds) (m : CompositeMeasurement)
    (symbols : List String) :
    ∀ found dependencies : List (Measurement α), (∀ other ∈ found, other ∈ g.measurements) →
      symbols.foldlM (g.resolve m) found = .ok dependencies →
      (∀ symbol ∈ symbols, g.Resolved m symbol) ∧
        ∀ other, other ∈ dependencies ↔
          other ∈ found ∨ ∃ symbol ∈ symbols, g.find? m symbol = some other := by
  induction symbols with
  | nil =>
      intro found dependencies _ h
      rw [List.foldlM_nil, Outcome.pure_eq_ok] at h
      rw [← h]
      exact ⟨fun _ hmem => absurd hmem List.not_mem_nil, fun other => by simp⟩
  | cons symbol rest ih =>
      intro found dependencies hfound h
      rw [List.foldlM_cons, Outcome.bind_eq_ok] at h
      rcases h with ⟨next, hnext, hrest⟩
      rcases resolve_eq_ok g hids m found next symbol hfound hnext with ⟨hsymbol, hmem, hadds⟩
      rcases ih next dependencies hmem hrest with ⟨hresolved, hall⟩
      refine ⟨List.forall_mem_cons.mpr ⟨hsymbol, hresolved⟩, fun other => ?_⟩
      rw [hall, hadds, or_assoc]
      simp only [List.exists_mem_cons_iff]

/-- Symbols that mean measurements of different identifiers add them in their order. -/
theorem foldlM_resolve_of_find? (g : Graph α) (m : CompositeMeasurement)
    (named : List (String × Measurement α)) :
    ∀ found : List (Measurement α), (∀ entry ∈ named, g.find? m entry.1 = some entry.2) →
      ((found ++ named.map Prod.snd).map Measurement.id).Nodup →
      (named.map Prod.fst).foldlM (g.resolve m) found = .ok (found ++ named.map Prod.snd) := by
  induction named with
  | nil => exact fun found _ _ => congrArg Except.ok (List.append_nil found).symm
  | cons entry rest ih =>
      intro found hfind hids
      have hnew : ¬ found.any (·.id = entry.2.id) = true := by
        intro hany
        rcases List.any_eq_true.mp hany with ⟨same, hsame, hid⟩
        rw [List.map_append, List.nodup_append] at hids
        exact hids.2.2 _ (List.mem_map_of_mem hsame) _ List.mem_cons_self (of_decide_eq_true hid)
      have hstep : g.resolve m found entry.1 = .ok (found ++ [entry.2]) := by
        rw [resolve, hfind entry List.mem_cons_self]
        simp only
        rw [if_neg hnew]
      rw [List.map_cons, List.append_cons] at hids
      rw [List.map_cons, List.foldlM_cons, Outcome.bind_eq_ok]
      refine ⟨_, hstep, ?_⟩
      rw [ih _ (fun other hother => hfind other (List.mem_cons_of_mem _ hother)) hids, List.map_cons,
        ← List.append_cons]

/-- A formula refers to what its symbols mean, in their order. -/
theorem dependencies_of_find? (g : Graph α) (m : CompositeMeasurement) (tree : Expr Decimal)
    (named : List (String × Measurement α)) (htree : m.tree (α := α) = .ok tree)
    (hsymbols : tree.freeSymbols = named.map Prod.fst)
    (hfind : ∀ entry ∈ named, g.find? m entry.1 = some entry.2)
    (hids : ((named.map Prod.snd).map Measurement.id).Nodup) :
    g.dependencies m = .ok (named.map Prod.snd) := by
  rw [Graph.dependencies, htree, Outcome.bind_eq_ok]
  refine ⟨tree, rfl, ?_⟩
  rw [hsymbols, foldlM_resolve_of_find? g m named [] hfind hids, List.nil_append]

theorem dependencies_eq_ok (g : Graph α) (hids : g.DistinctIds) (m : CompositeMeasurement)
    (dependencies : List (Measurement α)) (h : g.dependencies m = .ok dependencies) :
    ∃ tree, m.tree (α := α) = .ok tree ∧ (∀ symbol ∈ tree.freeSymbols, g.Resolved m symbol) ∧
      ∀ other, other ∈ dependencies ↔
        ∃ symbol ∈ tree.freeSymbols, g.find? m symbol = some other := by
  rw [Graph.dependencies, Outcome.bind_eq_ok] at h
  rcases h with ⟨tree, htree, h⟩
  rcases foldlM_resolve_eq_ok g hids m tree.freeSymbols [] dependencies
    (fun _ hmem => absurd hmem List.not_mem_nil) h with ⟨hresolved, hall⟩
  exact ⟨tree, htree, hresolved, fun other => by simpa using hall other⟩

/-- Dependencies are what is referenced. -/
theorem mem_dependencies_iff (g : Graph α) (hids : g.DistinctIds) (m : CompositeMeasurement)
    (dependencies : List (Measurement α)) (h : g.dependencies m = .ok dependencies)
    (other : Measurement α) :
    other ∈ dependencies ↔ g.References (.composite m) other := by
  rcases dependencies_eq_ok g hids m dependencies h with ⟨tree, htree, -, hall⟩
  rw [hall, References]
  constructor
  · exact fun hsymbol => ⟨tree, htree, hsymbol⟩
  · rintro ⟨tree', htree', hsymbol⟩
    rw [htree, Except.ok.injEq] at htree'
    rw [htree']
    exact hsymbol

/-- Dependencies are referenced, also where identifiers are not distinct. -/
theorem references_of_mem_dependencies (g : Graph α) (m : CompositeMeasurement)
    (dependencies : List (Measurement α)) (h : g.dependencies m = .ok dependencies) :
    ∀ other ∈ dependencies, g.References (.composite m) other := by
  rw [Graph.dependencies, Outcome.bind_eq_ok] at h
  rcases h with ⟨tree, htree, h⟩
  refine Outcome.foldlM_keeps
    (fun found => ∀ other ∈ found, g.References (.composite m) other) (g.resolve m)
    tree.freeSymbols (fun found symbol next hsymbol hfound hstep => ?_) [] dependencies
    (fun _ hmem => absurd hmem List.not_mem_nil) h
  rw [resolve] at hstep
  cases hfind : g.find? m symbol with
  | some dependency =>
      rw [hfind, Except.ok.injEq] at hstep
      rw [← hstep]
      split
      · exact hfound
      · refine List.forall_mem_append.mpr ⟨hfound, List.forall_mem_singleton.mpr ?_⟩
        exact ⟨tree, htree, symbol, hsymbol, hfind⟩
  | none =>
      rw [hfind] at hstep
      simp only at hstep
      split at hstep
      · cases hstep
      · split at hstep
        · exact Except.ok.inj hstep ▸ hfound
        · cases hstep

/-- What is referenced is a measurement of the graph. -/
theorem References.mem (g : Graph α) (m other : Measurement α) (h : g.References m other) :
    other ∈ g.measurements := by
  cases m with
  | direct m => exact h.elim
  | composite m =>
      rcases h with ⟨-, -, symbol, -, hfind⟩
      exact (find?_eq_some g m symbol other hfind).1

/-- What is reached from a measurement of the graph is one. -/
theorem Reaches.mem (g : Graph α) (m other : Measurement α) (hm : m ∈ g.measurements)
    (h : g.Reaches m other) : other ∈ g.measurements := by
  cases h with
  | refl => exact hm
  | tail _ href => exact href.mem

/-- What is referenced has a symbol. -/
theorem References.symbol (g : Graph α) (m other : Measurement α)
    (h : g.References m other) : ∃ symbol, other.symbol? = some symbol := by
  cases m with
  | direct d => exact h.elim
  | composite c =>
      rcases h with ⟨-, -, symbol, -, hfind⟩
      exact ⟨symbol, (g.find?_eq_some c symbol other hfind).2.1⟩

/-- What is listed as a dependency has a symbol. -/
theorem symbol_of_dependencies (g : Graph α) (m : CompositeMeasurement)
    (dependencies : List (Measurement α)) (h : g.dependencies m = .ok dependencies) :
    ∀ dependency ∈ dependencies, dependency.symbol? ≠ none := by
  intro dependency hmem hnone
  rcases (g.references_of_mem_dependencies m dependencies h dependency hmem).symbol with
    ⟨symbol, hsymbol⟩
  rw [hnone] at hsymbol
  cases hsymbol

/-- What is below a composite measurement has a symbol. -/
theorem symbol_of_reaches (g : Graph α) (c : CompositeMeasurement)
    (d : DirectMeasurement α) (h : g.Reaches (.composite c) (.direct d)) :
    ∃ symbol, d.name.symbol? = some symbol := by
  cases h with
  | tail _ href => exact href.symbol

/-- Measurements of a graph are told by their identifiers. -/
theorem DistinctIds.eq_of_map_id (g : Graph α) (h : g.DistinctIds) (first : List (Measurement α)) :
    ∀ others : List (Measurement α), (∀ m ∈ first, m ∈ g.measurements) →
      (∀ m ∈ others, m ∈ g.measurements) →
        first.map Measurement.id = others.map Measurement.id → first = others := by
  induction first with
  | nil => exact fun others _ _ hids => (List.map_eq_nil_iff.mp hids.symm).symm
  | cons m rest ih =>
      intro others hfirst hothers hids
      rcases List.map_eq_cons_iff.mp hids.symm with ⟨other, others, rfl, hid, hrest⟩
      rw [List.forall_mem_cons] at hfirst hothers
      rw [h.eq_of_id g m other hfirst.1 hothers.1 hid.symm,
        ih others hfirst.2 hothers.2 hrest.symm]

/-- Dependencies are told by their identifiers. -/
theorem dependencies_eq_of_ids (g : Graph α) (hids : g.DistinctIds) (m : CompositeMeasurement)
    (expected : List (Measurement α)) (hexpected : ∀ other ∈ expected, other ∈ g.measurements)
    (h : (g.dependencies m).toOption.map (List.map Measurement.id) =
      some (expected.map Measurement.id)) : g.dependencies m = .ok expected := by
  rcases Option.map_eq_some_iff.mp h with ⟨dependencies, hdependencies, hsame⟩
  replace hdependencies := Outcome.eq_ok_of_toOption _ _ hdependencies
  have hmem : ∀ other ∈ dependencies, other ∈ g.measurements := fun other hother =>
    (g.references_of_mem_dependencies m dependencies hdependencies other hother).mem
  rw [hdependencies, hids.eq_of_map_id g dependencies expected hmem hexpected hsame]

/-- Why a formula does not resolve: it has no tree, or it mentions a symbol that means no
    other measurement and is the measurement's own or has no value. -/
theorem dependencies_eq_error (g : Graph α) (m : CompositeMeasurement) (e : PropagationError α)
    (h : g.dependencies m = .error e) :
    m.tree = .error e ∨
      ∃ tree symbol, m.tree (α := α) = .ok tree ∧ symbol ∈ tree.freeSymbols ∧
        g.find? m symbol = none ∧
        ((m.name.symbol? = some symbol ∧ e = .cyclicReference [symbol, symbol]) ∨
          (m.name.symbol? ≠ some symbol ∧ g.constants symbol = none ∧
            Constant.ofName? symbol = none ∧ e = .undefinedMeasurement symbol)) := by
  rw [Graph.dependencies, Outcome.bind_eq_error] at h
  rcases h with htree | ⟨tree, htree, h⟩
  · exact Or.inl htree
  · rcases Outcome.foldlM_eq_error _ _ _ _ h with ⟨found, symbol, hmem, hstep⟩
    refine Or.inr ⟨tree, symbol, htree, hmem, ?_⟩
    rw [resolve] at hstep
    cases hfind : g.find? m symbol with
    | some other => rw [hfind] at hstep; cases hstep
    | none =>
        rw [hfind] at hstep
        simp only at hstep
        refine ⟨rfl, ?_⟩
        split at hstep
        · next hself => exact Or.inl ⟨hself, (Except.error.inj hstep).symm⟩
        · next hself =>
          split at hstep
          · cases hstep
          · next hvalue =>
            simp only [Bool.or_eq_true, not_or, Bool.not_eq_true, Option.isSome_eq_false_iff,
              Option.isNone_iff_eq_none] at hvalue
            exact Or.inr ⟨hself, hvalue.1, hvalue.2, (Except.error.inj hstep).symm⟩

/-- Resolving finds a cycle only where a measurement references itself. -/
theorem selfReference_of_dependencies (g : Graph α) (m : CompositeMeasurement)
    (labels : List String) (h : g.dependencies m = .error (.cyclicReference labels)) :
    ∃ symbol, g.SelfReference m symbol ∧ labels = [symbol, symbol] := by
  rcases g.dependencies_eq_error m _ h with htree | ⟨tree, symbol, htree, hmem, hfind, hcause⟩
  · rcases m.tree_eq_error _ htree with hempty | ⟨cause, hcause⟩
    · cases hempty
    · cases hcause
  · rcases hcause with ⟨hself, hlabels⟩ | ⟨-, -, -, hundefined⟩
    · exact ⟨symbol, ⟨tree, htree, hmem, hself, (find?_eq_none g m symbol).mp hfind⟩,
        PropagationError.cyclicReference.inj hlabels⟩
    · cases hundefined

/-- A measurement that references itself does not resolve. -/
theorem SelfReference.not_resolved (g : Graph α) (hids : g.DistinctIds) (m : CompositeMeasurement)
    (symbol : String) (dependencies : List (Measurement α)) (h : g.SelfReference m symbol) :
    g.dependencies m ≠ .ok dependencies := by
  intro hdependencies
  -- Its own symbol would have to be resolved, and means no other measurement.
  rcases h with ⟨tree, htree, hmem, hself, hothers⟩
  rcases dependencies_eq_ok g hids m dependencies hdependencies with ⟨tree', htree', hresolved, -⟩
  rw [htree, Except.ok.injEq] at htree'
  exact (hresolved symbol (htree' ▸ hmem) ((find?_eq_none g m symbol).mpr hothers)).1 hself

end Dependencies

section Walks

/-- Composite measurements that lead from one measurement to another, each
    mentioning the next. -/
inductive Walk (g : Graph α) (start : Measurement α) :
    List CompositeMeasurement → Measurement α → Prop
  | here : Walk g start [] start
  | step (path : List CompositeMeasurement) (m : CompositeMeasurement) (next : Measurement α)
      (hwalk : Walk g start path (.composite m)) (href : g.References (.composite m) next) :
      Walk g start (path ++ [m]) next

theorem Walk.reaches (g : Graph α) (start m : Measurement α) (path : List CompositeMeasurement)
    (h : g.Walk start path m) : g.Reaches start m := by
  induction h with
  | here => exact .refl
  | step path m next _ href ih => exact .tail ih href

/-- Every measurement of a walk is mentioned on the way from the start, and it
    leads to the end. -/
theorem Walk.mem_path (g : Graph α) (start m : Measurement α) (path : List CompositeMeasurement)
    (h : g.Walk start path m) (c : CompositeMeasurement) (hc : c ∈ path) :
    g.Reaches start (.composite c) ∧ Relation.TransGen g.References (.composite c) m := by
  induction h with
  | here => exact absurd hc List.not_mem_nil
  | step path m next hwalk href ih =>
      rcases List.mem_append.mp hc with hc | hc
      · exact ⟨(ih hc).1, .tail (ih hc).2 href⟩
      · rw [List.mem_singleton.mp hc]
        exact ⟨hwalk.reaches, .single href⟩

/-- What an evaluation that was asked about a measurement knows of the path it is
    on. -/
structure Approach (g : Graph α) (start : Measurement α) (path : List CompositeMeasurement)
    (m : Measurement α) : Prop where
  walk : g.Walk start path m
  distinct : (path.map (·.id)).Nodup
  mem : m ∈ g.measurements
  path_mem : ∀ c ∈ path, .composite c ∈ g.measurements

theorem Approach.start (g : Graph α) (m : Measurement α) (hm : m ∈ g.measurements) :
    g.Approach m [] m where
  walk := .here
  distinct := List.nodup_nil
  mem := hm
  path_mem := fun _ h => absurd h List.not_mem_nil

/-- Entering a measurement lengthens the path. -/
theorem Approach.enter (g : Graph α) (start : Measurement α) (path : List CompositeMeasurement)
    (m : CompositeMeasurement) (next : Measurement α) (h : g.Approach start path (.composite m))
    (hnew : m.id ∉ path.map (·.id)) (href : g.References (.composite m) next) :
    g.Approach start (path ++ [m]) next where
  walk := .step path m next h.walk href
  distinct := by
    rw [List.map_append, List.map_singleton]
    exact List.Nodup.append h.distinct (List.nodup_singleton _)
      (List.disjoint_singleton.mpr hnew)
  mem := href.mem
  path_mem := by
    intro c hc
    rcases List.mem_append.mp hc with hc | hc
    · exact h.path_mem c hc
    · rw [List.mem_singleton.mp hc]
      exact h.mem

theorem mem_compositeIds (measurements : List (Measurement α)) (m : CompositeMeasurement)
    (h : .composite m ∈ measurements) : m.id ∈ compositeIds measurements := by
  rw [compositeIds, List.mem_eraseDups, List.mem_filterMap]
  exact ⟨.composite m, h, rfl⟩

/-- As many distinct identifiers of composite measurements as the fuel allows for are all
    that there are. -/
theorem mem_of_full (g : Graph α) (start : Measurement α) (ids : List RecordId) (id : RecordId)
    (hdistinct : ids.Nodup) (hlisted : ids ⊆ compositeIds (start :: g.measurements))
    (hid : id ∈ compositeIds (start :: g.measurements)) (hfull : g.depth start ≤ ids.length) :
    id ∈ ids := by
  by_contra hnew
  -- One more identifier would be more than there are.
  have hnodup : (id :: ids).Nodup := List.nodup_cons.mpr ⟨hnew, hdistinct⟩
  have hlength := (List.subperm_of_subset hnodup (List.cons_subset.mpr ⟨hid, hlisted⟩)).length_le
  rw [List.length_cons] at hlength
  rw [depth] at hfull
  omega

/-- Where no measurement can be entered, because its identifier is on the path or
    because the path has reached its full length, a cycle closes. -/
theorem Approach.mem_path (g : Graph α) (hids : g.DistinctIds) (start : Measurement α)
    (path : List CompositeMeasurement) (m : CompositeMeasurement)
    (h : g.Approach start path (.composite m))
    (hclosed : m.id ∈ path.map (·.id) ∨ g.depth start ≤ path.length) : m ∈ path := by
  have hlisted : path.map (·.id) ⊆ compositeIds (start :: g.measurements) := by
    intro id hid
    rcases List.mem_map.mp hid with ⟨c, hc, rfl⟩
    exact mem_compositeIds _ c (List.mem_cons_of_mem _ (h.path_mem c hc))
  have hmem : m.id ∈ path.map (·.id) := by
    refine hclosed.elim id fun hfull => ?_
    exact g.mem_of_full start _ m.id h.distinct hlisted
      (mem_compositeIds _ m (List.mem_cons_of_mem _ h.mem)) (by rw [List.length_map]; exact hfull)
  -- Identifiers are distinct, so it is the measurement itself that is on the path.
  rcases List.mem_map.mp hmem with ⟨c, hc, hid⟩
  have hsame := hids.eq_of_id g (.composite c) (.composite m) (h.path_mem c hc) h.mem hid
  rw [Measurement.composite.injEq] at hsame
  exact hsame ▸ hc

end Walks

section Settled

/-- A measurement below which everything resolves, and the descent ends. -/
inductive Settled (g : Graph α) : Measurement α → Prop
  | direct (m : DirectMeasurement α) : Settled g (.direct m)
  | composite (m : CompositeMeasurement) (dependencies : List (Measurement α))
      (hdependencies : g.dependencies m = .ok dependencies)
      (hsettled : ∀ dependency ∈ dependencies, Settled g dependency) : Settled g (.composite m)

/-- What a settled measurement mentions is settled. -/
theorem Settled.of_references (g : Graph α) (hids : g.DistinctIds) (m other : Measurement α)
    (h : g.Settled m) (href : g.References m other) : g.Settled other := by
  cases h with
  | direct m => exact href.elim
  | composite m dependencies hdependencies hsettled =>
      exact hsettled other ((g.mem_dependencies_iff hids m dependencies hdependencies other).mpr href)

/-- Below a settled measurement everything is settled. -/
theorem Settled.of_reaches (g : Graph α) (hids : g.DistinctIds) (m other : Measurement α)
    (h : g.Settled m) (hreaches : g.Reaches m other) : g.Settled other := by
  induction hreaches with
  | refl => exact h
  | tail _ href ih => exact ih.of_references g hids _ _ href

/-- A settled measurement is on no cycle. -/
theorem Settled.acyclic (g : Graph α) (hids : g.DistinctIds) (m : Measurement α)
    (h : g.Settled m) : ¬ g.OnCycle m := by
  induction h with
  | direct m =>
      intro hcycle
      rcases Relation.TransGen.head'_iff.mp hcycle with ⟨next, href, -⟩
      exact href
  | composite m dependencies hdependencies _ ih =>
      intro hcycle
      rcases Relation.TransGen.head'_iff.mp hcycle with ⟨next, href, hback⟩
      -- The cycle also goes through the dependency it leaves by.
      have hnext := (g.mem_dependencies_iff hids m dependencies hdependencies next).mpr href
      exact ih next hnext (Relation.TransGen.tail' hback href)

/-- The dependencies of a settled measurement are resolved. -/
theorem Settled.resolves (g : Graph α) (m : CompositeMeasurement) (h : g.Settled (.composite m)) :
    ∃ dependencies, g.dependencies m = .ok dependencies := by
  cases h with
  | composite m dependencies hdependencies _ => exact ⟨dependencies, hdependencies⟩

end Settled

end Graph

end Metrology
