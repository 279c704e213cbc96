import Metrology.Proofs.Expr.Substitution
import Metrology.Proofs.Expr.Symbols
import Metrology.Proofs.Propagation.Law
import Metrology.Proofs.Propagation.Recomputed

/-!
# No symbol is unbound

What a symbol means is decided in four places. Resolving a formula asks for another
measurement, for the measurement's own symbol, for a constant and for a built-in value.
The bindings hold the constants and the means of the dependencies. Differentiating takes
the formula apart, and evaluating looks symbols up in the bindings and then among the
built-in values. All four agree: bindings that have been made for a formula have a value
for each symbol of the formula and of its derivatives. So an undefined symbol is always
reported by resolving, and the report is right.

This needs no path and no memory. Whatever means the bindings were made from, and
wherever they were made, the symbols are those of the dependencies.

## Main definitions

* `Bindings.Has`: A symbol has a value.
* `Bindings.Settles`: A formula is evaluated without an undefined symbol.
* `Graph.Undefined`: A symbol of a formula that means nothing.
* `Graph.undefinedLaw`: Reports of undefined symbols as a law.

## Theorems

* `Expr.settles_of_mentionsOnly`: Formulas with values for their symbols are settled.
* `Graph.has_of_binds`: Bindings have a value for each symbol of the formula.
* `Evaluation.settles_of_bindings`, `Evaluation.run_bindings_of_hasMean`: Bindings settle
  their formula, and with the means of the dependencies there are some.
* `Propagator.symbols_bound`: No symbol is unbound, and undefined symbols are reported
  rightly.
-/

namespace Metrology

variable {σ α : Type}

/-- A symbol has a value: something is bound to it, or it is a built-in constant. -/
def Bindings.Has (bound : Bindings α) (name : String) : Prop :=
  (bound name).isSome ∨ (Constant.ofName? name).isSome

variable [Scalar α]

/-- A formula is evaluated without meeting an undefined symbol. -/
def Bindings.Settles (bound : Bindings α) (tree : Expr α) : Prop :=
  ∀ name, tree.evaluate bound ≠ .error (.undefinedSymbol name)

namespace Expr

section Operations

variable (name : String)

omit [Scalar α] in
theorem liftUnit_ne_undefinedSymbol {β : Type} (outcome : Except (UnitError α) β) :
    liftUnit outcome ≠ .error (.undefinedSymbol name) := by
  cases outcome <;> exact fun h => by cases h

theorem applyScalar_ne_undefinedSymbol (function : String) (x : α) :
    applyScalar function x ≠ .error (.undefinedSymbol name) := by
  unfold applyScalar applyInverse applyLogarithm
  split <;> (try split) <;> exact fun h => by cases h

theorem applyFunction_ne_undefinedSymbol (function : String) (q : Quantity α) :
    applyFunction function q ≠ .error (.undefinedSymbol name) := by
  unfold applyFunction
  split
  · split
    · exact fun h => by cases h
    · exact liftUnit_ne_undefinedSymbol name _
  · split
    · exact fun h => by cases h
    · intro h
      rcases (Outcome.bind_eq_error _ _ _).mp h with hunit | ⟨x, -, hscalar⟩
      · exact liftUnit_ne_undefinedSymbol name _ hunit
      · rcases (Outcome.bind_eq_error _ _ _).mp hscalar with hscalar | ⟨y, -, hnumber⟩
        · exact applyScalar_ne_undefinedSymbol name function x hscalar
        · cases hnumber

theorem applyBinary_ne_undefinedSymbol (op : BinaryOp) (p q : Quantity α) :
    applyBinary op p q ≠ .error (.undefinedSymbol name) := by
  cases op with
  | add => exact liftUnit_ne_undefinedSymbol name _
  | sub => exact liftUnit_ne_undefinedSymbol name _
  | mul => exact liftUnit_ne_undefinedSymbol name _
  | div =>
      rw [applyBinary, applyQuotient]
      split
      · exact fun h => by cases h
      · exact liftUnit_ne_undefinedSymbol name _
  | pow =>
      intro h
      rcases (Outcome.bind_eq_error _ _ _).mp h with hunit | ⟨result, -, hresult⟩
      · exact liftUnit_ne_undefinedSymbol name _ hunit
      · split at hresult <;> cases hresult

end Operations

/-- Only looking a symbol up can fail for an undefined symbol, so a formula with values
    for all its symbols is evaluated without one. -/
theorem settles_of_mentionsOnly (bound : Bindings α) (tree : Expr α)
    (h : tree.MentionsOnly bound.Has) : bound.Settles tree := by
  intro name
  induction tree with
  | number value => exact fun h => by cases h
  | symbol other =>
      have hvalue : bound.Has other := h other (decide_eq_true rfl)
      rw [evaluate, lookup]
      cases hbound : bound other with
      | some q => exact fun h => by cases h
      | none =>
          -- Nothing is bound to the symbol, so it is a built-in constant.
          rw [Bindings.Has, hbound] at hvalue
          rcases hvalue with hnone | hconstant
          · cases hnone
          · rcases Option.isSome_iff_exists.mp hconstant with ⟨constant, hconstant⟩
            rw [hconstant]
            exact fun h => by cases h
  | binary op left right ihl ihr =>
      rw [mentionsOnly_binary] at h
      intro hfailure
      rcases (Outcome.bind_eq_error _ _ _).mp hfailure with hleft | ⟨p, -, hfailure⟩
      · exact ihl h.1 hleft
      · rcases (Outcome.bind_eq_error _ _ _).mp hfailure with hright | ⟨q, -, hresult⟩
        · exact ihr h.2 hright
        · exact applyBinary_ne_undefinedSymbol name op p q hresult
  | negate operand ih =>
      intro hfailure
      rcases (Outcome.bind_eq_error _ _ _).mp hfailure with hoperand | ⟨q, -, hresult⟩
      · exact ih h hoperand
      · cases hresult
  | call function argument ih =>
      intro hfailure
      rcases (Outcome.bind_eq_error _ _ _).mp hfailure with hargument | ⟨q, -, hresult⟩
      · exact ih h hargument
      · exact applyFunction_ne_undefinedSymbol name function q hresult

/-- The free symbols of a derivative are free symbols of the formula. -/
theorem freeSymbols_differentiate_subset (tree : Expr α) (target : String) :
    (tree.differentiate target).freeSymbols ⊆ tree.freeSymbols := by
  intro name hname
  rw [mem_freeSymbols] at hname
  exact MentionsOnly.differentiate target tree
    (fun other hother => (mem_freeSymbols other tree).mpr hother) name hname

end Expr

namespace Graph

/-- A symbol of a formula that means nothing: no other measurement carries it, and it is
    neither the measurement's own nor a constant. -/
structure Undefined (g : Graph α) (m : CompositeMeasurement) (symbol : String) : Prop where
  mentioned : ∃ tree, m.tree (α := α) = .ok tree ∧ symbol ∈ tree.freeSymbols
  no_measurement : ∀ other ∈ g.measurements, other.id ≠ m.id → other.symbol? ≠ some symbol
  not_itself : m.name.symbol? ≠ some symbol
  no_constant : g.constants symbol = none
  no_builtIn : Constant.ofName? symbol = none

omit [Scalar α] in
/-- Resolving reports undefined symbols rightly. -/
theorem undefined_of_dependencies (g : Graph α) (m : CompositeMeasurement) (symbol : String)
    (h : g.dependencies m = .error (.undefinedMeasurement symbol)) : g.Undefined m symbol := by
  rcases g.dependencies_eq_error m _ h with htree | ⟨tree, other, htree, hmem, hfind, hcause⟩
  · rcases m.tree_eq_error _ htree with hempty | ⟨cause, hcause⟩
    · cases hempty
    · cases hcause
  · rcases hcause with ⟨-, hcycle⟩ | ⟨hself, hconstant, hbuiltIn, hundefined⟩
    · cases hcycle
    · cases hundefined
      exact ⟨⟨tree, htree, hmem⟩, (g.find?_eq_none m symbol).mp hfind, hself, hconstant, hbuiltIn⟩

omit [Scalar α] in
/-- Bindings that are made for a formula have a value for each of its symbols, whatever
    the values are. -/
theorem has_of_binds (g : Graph α) (hids : g.DistinctIds) (m : CompositeMeasurement)
    (tree : Expr Decimal) (dependencies : List (Measurement α)) (bound : Bindings α)
    (value : Measurement α → Option (Quantity α) → Prop) (htree : m.tree (α := α) = .ok tree)
    (hdependencies : g.dependencies m = .ok dependencies)
    (hbinds : Evaluation.Binds value dependencies g.constants bound) :
    ∀ name ∈ tree.freeSymbols, bound.Has name := by
  intro name hname
  rcases g.dependencies_eq_ok hids m dependencies hdependencies with
    ⟨tree', htree', hresolved, hall⟩
  rw [htree, Except.ok.injEq] at htree'
  subst htree'
  rcases hbinds.apply value dependencies _ bound name with
    ⟨-, -, -, q, -, hvalue⟩ | ⟨hunnamed, hvalue⟩
  · exact Or.inl (by rw [hvalue]; rfl)
  · cases hfind : g.find? m name with
    | some other =>
        -- What the symbol means is a dependency, and that carries the symbol.
        have hmem := (hall other).mpr ⟨name, hname, hfind⟩
        exact absurd (g.find?_eq_some m name other hfind).2.1 (hunnamed other hmem)
    | none =>
        rw [Bindings.Has, hvalue]
        exact (hresolved name hname hfind).2

/-- With bindings that are made for it, a formula and its derivatives are evaluated
    without undefined symbols. -/
theorem settles_of_binds (g : Graph α) (hids : g.DistinctIds) (m : CompositeMeasurement)
    (tree : Expr Decimal) (dependencies : List (Measurement α)) (bound : Bindings α)
    (value : Measurement α → Option (Quantity α) → Prop) (htree : m.tree (α := α) = .ok tree)
    (hdependencies : g.dependencies m = .ok dependencies)
    (hbinds : Evaluation.Binds value dependencies g.constants bound) :
    bound.Settles (.ofDecimals tree) ∧
      ∀ symbol, bound.Settles ((Expr.ofDecimals tree).differentiate symbol) := by
  have hhas : (Expr.ofDecimals tree : Expr α).MentionsOnly bound.Has := by
    intro name hname
    rw [Expr.mentions_ofDecimals, ← Expr.mem_freeSymbols] at hname
    exact g.has_of_binds hids m tree dependencies bound value htree hdependencies hbinds name hname
  exact ⟨Expr.settles_of_mentionsOnly bound _ hhas,
    fun symbol => Expr.settles_of_mentionsOnly bound _ (hhas.differentiate symbol _)⟩

/-- Reports of undefined symbols as a law. -/
def undefinedLaw (g : Graph α) (hids : g.DistinctIds) : Evaluation.MeanLaw g where
  value _ _ := True
  failure m e := ∀ symbol, e = .undefinedMeasurement symbol →
    ∃ c, g.Reaches m (.composite c) ∧ g.Undefined c symbol
  direct_value _ _ _ := True.intro
  direct_failure d e h := by
    intro symbol hundefined
    rw [hundefined] at h
    rcases Evaluation.directMean_eq_error d _ h with ⟨cause, hcause⟩
    cases hcause
  closes _ _ _ h := by cases h
  unresolved m e h := by
    intro symbol hundefined
    exact ⟨m, .refl, g.undefined_of_dependencies m symbol (hundefined ▸ h)⟩
  fails m dependencies hdependencies dependency hmem e h := by
    intro symbol hundefined
    rcases h symbol hundefined with ⟨c, hreaches, hc⟩
    have href := g.references_of_mem_dependencies m dependencies hdependencies dependency hmem
    exact ⟨c, .head href hreaches, hc⟩
  missing _ _ _ _ _ _ := True.intro
  evaluated _ _ _ _ _ _ _ _ _ := True.intro
  unevaluated m tree dependencies bound e htree hdependencies hbinds heval := by
    intro symbol hundefined
    have hsettles := (g.settles_of_binds hids m tree dependencies bound _ htree hdependencies
      hbinds).1
    cases e with
    | undefinedSymbol name => exact absurd heval (hsettles name)
    | unit cause => cases hundefined
    | divisionByZero => cases hundefined
    | unknownFunction function => cases hundefined
    | invalidArgument reason => cases hundefined

end Graph

namespace Evaluation

/-- All bindings that are ever made for a formula settle it and its derivatives. -/
theorem settles_of_bindings (g : Graph α) (hids : g.DistinctIds) (m : CompositeMeasurement)
    (tree : Expr Decimal) (meanOf : Measurement α → Evaluation σ α (Option (Quantity α)))
    (context : Context σ α) (bound : Bindings α) (htree : m.tree (α := α) = .ok tree)
    (hbound : ((bindings g meanOf m).run context).1 = .ok (some bound)) :
    bound.Settles (.ofDecimals tree) ∧
      ∀ symbol, bound.Settles ((Expr.ofDecimals tree).differentiate symbol) := by
  -- Nothing has to be known of the means that are bound.
  have hmeets : Meets (fun _ => True) (bindings g meanOf m) _ (fun _ => True) :=
    Meets.bindings g m meanOf (fun _ _ => True) (fun _ _ => trivial)
      (fun _ _ dependency _ => Meets.trivially (meanOf dependency))
  rcases (hmeets.outcome _ _ context trivial).1 _ hbound with
    ⟨dependencies, hdependencies, ⟨hnone, -⟩ | ⟨result, hsome, hbinds⟩⟩
  · cases hnone
  · rw [Option.some.inj hsome]
    exact g.settles_of_binds hids m tree dependencies result _ htree hdependencies hbinds

/-- Inside of a measurement whose dependencies have means there are bindings: the
    constants, overlaid with the means. -/
theorem run_bindings_of_hasMean (g : Graph α) (hids : g.DistinctIds) (m : CompositeMeasurement)
    (hm : .composite m ∈ g.measurements) (found : List (Measurement α × Quantity α))
    (hdependencies : g.dependencies m = .ok (found.map Prod.fst))
    (hfound : ∀ entry ∈ found, g.HasMean entry.1 (some entry.2)) (fuel : Nat)
    (hfuel : g.depth (.composite m) ≤ fuel + 1) (store : σ) :
    ((bindings g (mean g fuel) m).run (inside m store)).1 =
      .ok (some (g.constants.overlaid found)) := by
  have hpursuit := Graph.Pursuit.start g (.composite m) hm
  have hnew : m.id ∉ ([] : List CompositeMeasurement).map (·.id) := List.not_mem_nil
  have hlength : g.depth (.composite m) ≤ [m].length + fuel := by
    rw [List.length_singleton]
    omega
  have hall : g.dependencies m = .ok (found.map Prod.fst ++ []) := by
    rw [List.append_nil, hdependencies]
  -- Without a memory each mean is found anew, and both recursions bind the same.
  have hanew : ∀ entry ∈ found,
      (meanAnew g fuel entry.1).run (inside m store) = (.ok (some entry.2), inside m store) :=
    fun entry hentry => run_meanAnew_of_hasMean g hids (.composite m) entry.1 _
      (hfound entry hentry) [m] fuel (inside m store)
      (hpursuit.found g hids _ [] m found [] hnew hall hfound entry hentry) hlength rfl
  have hplain : ((bindings g (meanAnew g fuel) m).run (inside m store)).1 =
      .ok (some (g.constants.overlaid found)) := by
    rw [bindings, Outcome.run_bind, run_ofExcept, hall]
    simp only
    rw [run_bindMeans_found _ found [] _ hanew]
    rfl
  have hsame := bindings_recomputes g hids (.composite m) [] m hpursuit hnew (mean g fuel)
    (meanAnew g fuel) (fun dependency hdep => mean_recomputes g hids (.composite m) fuel [m]
      dependency hdep hlength) (inside m store) (inside m store)
      ⟨Meets.follows_inside m store, rfl, rfl⟩
  rw [hsame.1, hplain]

end Evaluation

namespace Propagator

open Evaluation

/-- An answer is the mean of the measurement. -/
theorem hasMean_of_mean (p : Propagator σ α) (all : List (Measurement α))
    (hids : (p.graph all).DistinctIds) (m : Measurement α) (hm : m ∈ all)
    (v : Option (Quantity α)) (h : ((Propagator.mean m all).run p).1 = .ok v) :
    (p.graph all).HasMean m v :=
  (mean_recomputes (p.graph all) hids m _ [] m (.start _ m hm) (Nat.le_add_left _ _)
    (.fresh p.store) (.fresh p.store) (.fresh (Meets.follows_fresh p.store))).2.1 v h

/-- No symbol is unbound once a formula has resolved. Where the dependencies have means,
    there are bindings inside of the measurement, and with these the formula and its
    derivatives are evaluated without undefined symbols. So they are with all bindings that
    are ever made for the formula, wherever that is. A derivative mentions no new symbols.
    Hence a mean fails for an undefined symbol only where resolving does: the symbol is one
    of the formula of a measurement that is reached, and it means nothing there. -/
theorem symbols_bound (p : Propagator σ α) (all : List (Measurement α))
    (hids : (all.map Measurement.id).Nodup) :
    (∀ (m : CompositeMeasurement) (found : List (Measurement α × Quantity α)) (fuel : Nat),
      .composite m ∈ all → (p.graph all).dependencies m = .ok (found.map Prod.fst) →
      (∀ entry ∈ found, ((Propagator.mean entry.1 all).run p).1 = .ok (some entry.2)) →
      (p.graph all).depth (.composite m) ≤ fuel + 1 →
        ∃ tree bound, m.tree (α := α) = .ok tree ∧ bound = p.constants.overlaid found ∧
          ((bindings (p.graph all) (Evaluation.mean (p.graph all) fuel) m).run
            (inside m p.store)).1 = .ok (some bound) ∧
          bound.Settles (.ofDecimals tree) ∧
            ∀ symbol, bound.Settles ((Expr.ofDecimals tree).differentiate symbol)) ∧
    (∀ (m : CompositeMeasurement) (tree : Expr Decimal)
      (meanOf : Measurement α → Evaluation σ α (Option (Quantity α))) (context : Context σ α)
      (bound : Bindings α), m.tree (α := α) = .ok tree →
      ((bindings (p.graph all) meanOf m).run context).1 = .ok (some bound) →
        bound.Settles (.ofDecimals tree) ∧
          ∀ symbol, bound.Settles ((Expr.ofDecimals tree).differentiate symbol)) ∧
    (∀ (tree : Expr α) (symbol : String),
      (tree.differentiate symbol).freeSymbols ⊆ tree.freeSymbols) ∧
    ∀ (m : Measurement α) (symbol : String),
      ((Propagator.mean m all).run p).1 = .error (.undefinedMeasurement symbol) →
        ∃ c, (p.graph all).Reaches m (.composite c) ∧ (p.graph all).Undefined c symbol := by
  have hsettles := settles_of_bindings (σ := σ) (p.graph all) hids
  refine ⟨?_, hsettles, Expr.freeSymbols_differentiate_subset, ?_⟩
  · intro m found fuel hm hdependencies hfound hfuel
    rcases (p.graph all).dependencies_eq_ok hids m _ hdependencies with ⟨tree, htree, -, -⟩
    have hmeans : ∀ entry ∈ found, (p.graph all).HasMean entry.1 (some entry.2) := by
      intro entry hentry
      have href := (p.graph all).references_of_mem_dependencies m _ hdependencies entry.1
        (List.mem_map_of_mem hentry)
      exact hasMean_of_mean p all hids entry.1 href.mem _ (hfound entry hentry)
    have hrun := run_bindings_of_hasMean (p.graph all) hids m hm found hdependencies hmeans fuel
      hfuel p.store
    exact ⟨tree, _, htree, rfl, hrun, hsettles m tree _ _ _ htree hrun⟩
  · intro m symbol hmean
    exact (MeanLaw.holds p all ((p.graph all).undefinedLaw hids) hids m).2 _ hmean symbol rfl

/-- The symbol that is reported as undefined. -/
def reportedSymbol? {β : Type} : Except (PropagationError α) β → Option String
  | .error (.undefinedMeasurement symbol) => some symbol
  | _ => none

omit [Scalar α] in
theorem eq_error_of_reportedSymbol? {β : Type} (outcome : Except (PropagationError α) β)
    (symbol : String) (h : reportedSymbol? outcome = some symbol) :
    outcome = .error (.undefinedMeasurement symbol) := by
  unfold reportedSymbol? at h
  split at h
  · rw [Option.some.inj h]
  · cases h

/-- A diameter, the circumference of its circle, and a sum with something unknown. -/
def circles : List (Measurement Float) :=
  [.direct { DirectMeasurement.empty ⟨1⟩ "d" "m" with values := [1.5] },
    .composite ⟨⟨2⟩, ⟨"c"⟩, ⟨"pi * d"⟩⟩, .composite ⟨⟨3⟩, ⟨"z"⟩, ⟨"c + q"⟩⟩]

/-- The circumference has bindings, with which its formula and the derivatives meet no
    undefined symbol. The one of the sum is reported, and nothing carries it. -/
theorem symbols_bound_circles :
    (∃ bound tree, (CompositeMeasurement.mk ⟨2⟩ ⟨"c"⟩ ⟨"pi * d"⟩).tree (α := Float) = .ok tree ∧
      ((bindings (⟨circles, Bindings.empty⟩ : Graph Float)
        (Evaluation.mean ⟨circles, Bindings.empty⟩ 1) ⟨⟨2⟩, ⟨"c"⟩, ⟨"pi * d"⟩⟩).run
          (inside ⟨⟨2⟩, ⟨"c"⟩, ⟨"pi * d"⟩⟩ (⟨⟩ : NoMemory Float))).1 = .ok (some bound) ∧
      bound.Settles (.ofDecimals tree) ∧
        ∀ symbol, bound.Settles ((Expr.ofDecimals tree).differentiate symbol)) ∧
    ∃ c, (⟨circles, Bindings.empty⟩ : Graph Float).Reaches (.composite ⟨⟨3⟩, ⟨"z"⟩, ⟨"c + q"⟩⟩)
        (.composite c) ∧
      (⟨circles, Bindings.empty⟩ : Graph Float).Undefined c "q" := by
  let p : Propagator (NoMemory Float) Float := ⟨Bindings.empty, ⟨⟩⟩
  let m : CompositeMeasurement := ⟨⟨2⟩, ⟨"c"⟩, ⟨"pi * d"⟩⟩
  let d : Measurement Float := .direct { DirectMeasurement.empty ⟨1⟩ "d" "m" with values := [1.5] }
  have hids : (circles.map Measurement.id).Nodup := by decide
  rcases symbols_bound p circles hids with ⟨htable, -, -, hreport⟩
  constructor
  · -- The one dependency is the diameter, and it has a mean.
    have hdependencies : (p.graph circles).dependencies m = .ok [d] :=
      (p.graph circles).dependencies_eq_of_ids hids m [d]
        (List.forall_mem_singleton.mpr List.mem_cons_self) (by decide +kernel)
    rcases Outcome.exists_of_toOption_isSome ((Propagator.mean d circles).run p).1
      (by decide) with ⟨q, hq⟩
    rcases htable m [(d, q)] 1 (List.mem_cons_of_mem _ List.mem_cons_self) hdependencies
      (List.forall_mem_singleton.mpr hq) (by decide) with ⟨tree, bound, htree, -, hrun, hsettles⟩
    exact ⟨bound, tree, htree, hrun, hsettles⟩
  · exact hreport (.composite ⟨⟨3⟩, ⟨"z"⟩, ⟨"c + q"⟩⟩) "q"
      (eq_error_of_reportedSymbol? _ "q" (by decide +kernel))

end Propagator

end Metrology
