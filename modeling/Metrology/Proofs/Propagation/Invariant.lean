import Metrology.Proofs.Outcome
import Metrology.Propagation.Propagator

/-!
# Invariants of evaluations

What an evaluation keeps true of its context, and of which kind its values and
its failures are. All questions to the measurement graph are recursions over
the same few steps: a measurement is put on the path, its dependencies are
evaluated one after the other, and means are remembered. A rule for each step
says what has to be shown about it, so that a statement about a whole question
needs no look into the context.

A failed evaluation is not continued, so nothing is said about the context that
it leaves.

An account says what is claimed of every measurement that is reached on some
path, and why each step passes the claim on. Means are remembered under
identifiers, while values are claimed of measurements, so an account of means
speaks of both. `MeanAccount.meets` and `DigitsAccount.meets` are the inductions
over the fuel, made once for every such account.

## Main definitions

* `Evaluation.Ends`, `Evaluation.Meets`: What a computation keeps, returns and
  fails with.
* `Evaluation.Context.Follows`: A context on a path, with means of a known kind.
* `Evaluation.Binds`: The bindings that the means of dependencies lead to.
* `Evaluation.DigitsAccount`, `Evaluation.MeanAccount`: What is claimed of the
  digits and of the means in a graph.

## Theorems

* `Evaluation.run_within`, `Evaluation.run_remembered`: What the steps do to a
  context.
* `Evaluation.Meets.bind`, `Evaluation.Meets.within`,
  `Evaluation.Meets.remembered`, `Evaluation.Meets.bindMeans`,
  `Evaluation.Meets.addTerms`, `Evaluation.Meets.bindings`,
  `Evaluation.Meets.compositeMean`: The rules.
* `Evaluation.DigitsAccount.meets`, `Evaluation.MeanAccount.meets`: Digits and
  means are as the account claims.
-/

namespace Metrology

/-- What a composite measurement is on the path as. -/
def CompositeMeasurement.entry (m : CompositeMeasurement) : RecordId × String := (m.id, m.label)

namespace Evaluation

variable {σ α β γ : Type}

section Steps

@[simp]
theorem run_pure (b : β) (context : Context σ α) :
    (pure b : Evaluation σ α β).run context = (.ok b, context) := rfl

@[simp]
theorem run_ofExcept (outcome : Except (PropagationError α) β) (context : Context σ α) :
    (ofExcept outcome : Evaluation σ α β).run context = (outcome, context) := rfl

@[simp]
theorem ofExcept_ok (b : β) : (ofExcept (.ok b) : Evaluation σ α β) = pure b := rfl

@[simp]
theorem run_cycle (m : CompositeMeasurement) (context : Context σ α) :
    (cycle m : Evaluation σ α β).run context =
      (.error (.cyclicReference (context.path.map Prod.snd ++ [m.label])), context) := rfl

theorem run_within (m : CompositeMeasurement) (body : Evaluation σ α β) (context : Context σ α) :
    (within m body).run context =
      if context.path.any (·.1 = m.id) then
        (.error (.cyclicReference (context.path.map Prod.snd ++ [m.label])), context)
      else
        ((body.run { context with path := context.path ++ [m.entry] }).1,
          leave (body.run { context with path := context.path ++ [m.entry] }).2) := by
  have henter : (enter m : Evaluation σ α PUnit).run context =
      if context.path.any (·.1 = m.id) then
        (.error (.cyclicReference (context.path.map Prod.snd ++ [m.label])), context)
      else (.ok PUnit.unit, { context with path := context.path ++ [m.entry] }) := by
    rw [enter, Outcome.run_bind]
    change (if context.path.any (·.1 = m.id) then cycle m else _ : Evaluation σ α PUnit).run
      context = _
    split <;> rfl
  rw [within, Outcome.run_bind, henter]
  -- Entering fails on a closed path, before the body is run.
  by_cases hpath : context.path.any (·.1 = m.id) = true
  · rw [if_pos hpath, if_pos hpath]
  · rw [if_neg hpath, if_neg hpath]
    rfl

theorem run_remembered (id : RecordId) (compute : Evaluation σ α (Option (Quantity α)))
    (context : Context σ α) :
    (remembered id compute).run context =
      match context.means.lookup id with
      | some known => (.ok known, context)
      | none =>
        match compute.run context with
        | (.ok value, next) => (.ok value, { next with means := (id, value) :: next.means })
        | (.error e, next) => (.error e, next) := by
  have hget : (remembered id compute).run context =
      (match context.means.lookup id with
        | some known => pure known
        | none => do
          let value ← compute
          modify fun context => { context with means := (id, value) :: context.means }
          return value : Evaluation σ α (Option (Quantity α))).run context := rfl
  rw [hget]
  cases context.means.lookup id with
  | some known => rfl
  | none =>
      simp only
      rw [Outcome.run_bind]
      rcases compute.run context with ⟨_ | _, _⟩ <;> rfl

theorem fst_ofExcept_bind_eq_ok (outcome : Except (PropagationError α) β)
    (f : β → Evaluation σ α γ) (context : Context σ α) (c : γ) :
    ((ofExcept outcome >>= f).run context).1 = .ok c ↔
      ∃ b, outcome = .ok b ∧ ((f b).run context).1 = .ok c := by
  rw [Outcome.run_bind, run_ofExcept]
  cases outcome <;> simp

/-- The context inside of a composite measurement that is asked about. -/
def inside (m : CompositeMeasurement) (store : σ) : Context σ α := ⟨[m.entry], [], store⟩

theorem fst_within_fresh (m : CompositeMeasurement) (body : Evaluation σ α β) (store : σ) :
    ((within m body).run (.fresh store)).1 = (body.run (inside m store)).1 := by
  rw [run_within, if_neg (by simp [Context.fresh])]
  rfl

theorem fst_remembered_fresh (id : RecordId)
    (compute : Evaluation σ α (Option (Quantity α))) (store : σ) :
    ((remembered id compute).run (.fresh store)).1 = (compute.run (.fresh store)).1 := by
  rw [run_remembered]
  rcases compute.run (.fresh store) with ⟨_ | _, _⟩ <;> rfl

end Steps

/-- An end of a computation: a value in a context of a given kind, or a
    failure. -/
def Ends (kept : Context σ α → Prop) (value : β → Prop) (failure : PropagationError α → Prop) :
    Except (PropagationError α) β × Context σ α → Prop
  | (.ok b, next) => kept next ∧ value b
  | (.error e, _) => failure e

/-- A computation that keeps something true of the context as long as it
    succeeds, with values and failures of given kinds. -/
def Meets (kept : Context σ α → Prop) (x : Evaluation σ α β) (value : β → Prop)
    (failure : PropagationError α → Prop) : Prop :=
  ∀ context, kept context → Ends kept value failure (x.run context)

namespace Meets

variable {kept : Context σ α → Prop} {failure : PropagationError α → Prop}

theorem pure (b : β) (value : β → Prop) (h : value b) :
    Meets kept (Pure.pure b) value failure :=
  fun _ hcontext => ⟨hcontext, h⟩

theorem ofExcept (outcome : Except (PropagationError α) β) (value : β → Prop)
    (hok : ∀ b, outcome = .ok b → value b) (herror : ∀ e, outcome = .error e → failure e) :
    Meets kept (Evaluation.ofExcept outcome) value failure := by
  intro context hcontext
  rw [run_ofExcept]
  cases outcome with
  | ok b => exact ⟨hcontext, hok b rfl⟩
  | error e => exact herror e rfl

/-- A sequence: what follows a value may use what is known of it. -/
theorem bind (x : Evaluation σ α β) (f : β → Evaluation σ α γ) (between : β → Prop)
    (value : γ → Prop) (hx : Meets kept x between failure)
    (hf : ∀ b, between b → Meets kept (f b) value failure) :
    Meets kept (x >>= f) value failure := by
  intro context hcontext
  have hfirst := hx context hcontext
  rw [Outcome.run_bind]
  rcases hrun : x.run context with ⟨e | b, next⟩
  · rw [hrun] at hfirst
    exact hfirst
  · rw [hrun] at hfirst
    exact hf b hfirst.2 next hfirst.1

theorem weaken (x : Evaluation σ α β) (value value' : β → Prop)
    (failure' : PropagationError α → Prop) (hx : Meets kept x value failure)
    (hvalue : ∀ b, value b → value' b) (hfailure : ∀ e, failure e → failure' e) :
    Meets kept x value' failure' := by
  intro context hcontext
  have hrun := hx context hcontext
  generalize x.run context = ending at hrun ⊢
  rcases ending with ⟨e | b, next⟩
  · exact hfailure e hrun
  · exact ⟨hrun.1, hvalue b hrun.2⟩

theorem trivially (x : Evaluation σ α β) :
    Meets (fun _ => True) x (fun _ => True) (fun _ => True) := by
  intro context _
  rcases x.run context with ⟨e | b, next⟩
  · exact True.intro
  · exact ⟨True.intro, True.intro⟩

/-- The outcome in a context in which the invariant holds. -/
theorem outcome (x : Evaluation σ α β) (value : β → Prop) (hx : Meets kept x value failure)
    (context : Context σ α) (hcontext : kept context) :
    (∀ b, (x.run context).1 = .ok b → value b) ∧
      ∀ e, (x.run context).1 = .error e → failure e := by
  have hrun := hx context hcontext
  generalize x.run context = ending at hrun ⊢
  rcases ending with ⟨e | b, next⟩
  · exact ⟨fun _ h => by simp at h, fun _ h => Except.error.inj h ▸ hrun⟩
  · exact ⟨fun _ h => Except.ok.inj h ▸ hrun.2, fun _ h => by simp at h⟩

end Meets

/-- A context inside of the measurements of a path, in which every remembered
    mean is of a known kind. -/
structure Context.Follows (known : RecordId → Option (Quantity α) → Prop)
    (path : List CompositeMeasurement) (context : Context σ α) : Prop where
  path_eq : context.path = path.map CompositeMeasurement.entry
  means : ∀ id value, context.means.lookup id = some value → known id value

/-- The bindings that the means of dependencies lead to, one after the other. -/
inductive Binds (value : Measurement α → Option (Quantity α) → Prop) :
    List (Measurement α) → Bindings α → Bindings α → Prop
  | done (bound : Bindings α) : Binds value [] bound bound
  | named (dependency : Measurement α) (rest : List (Measurement α)) (symbol : String)
      (q : Quantity α) (bound result : Bindings α) (hsymbol : dependency.symbol? = some symbol)
      (hvalue : value dependency (some q)) (hrest : Binds value rest (bound.bind symbol q) result) :
      Binds value (dependency :: rest) bound result
  | unnamed (dependency : Measurement α) (rest : List (Measurement α)) (q : Quantity α)
      (bound result : Bindings α) (hsymbol : dependency.symbol? = none)
      (hvalue : value dependency (some q)) (hrest : Binds value rest bound result) :
      Binds value (dependency :: rest) bound result

/-- Every mean that is bound is of the claimed kind. -/
theorem Binds.values (value : Measurement α → Option (Quantity α) → Prop)
    (dependencies : List (Measurement α)) (bound result : Bindings α)
    (h : Binds value dependencies bound result) :
    ∀ dependency ∈ dependencies, ∃ q, value dependency (some q) := by
  induction h with
  | done bound => exact fun _ h => absurd h List.not_mem_nil
  | named dependency rest symbol q bound result _ hvalue _ ih =>
      exact List.forall_mem_cons.mpr ⟨⟨q, hvalue⟩, ih⟩
  | unnamed dependency rest q bound result _ hvalue _ ih =>
      exact List.forall_mem_cons.mpr ⟨⟨q, hvalue⟩, ih⟩

/-- What a symbol is bound to: the mean of a dependency that carries it, or else
    what it was bound to before. -/
theorem Binds.apply (value : Measurement α → Option (Quantity α) → Prop)
    (dependencies : List (Measurement α)) (bound result : Bindings α)
    (h : Binds value dependencies bound result) (name : String) :
    (∃ dependency ∈ dependencies, dependency.symbol? = some name ∧
        ∃ q, value dependency (some q) ∧ result name = some q) ∨
      ((∀ dependency ∈ dependencies, dependency.symbol? ≠ some name) ∧
        result name = bound name) := by
  induction h with
  | done bound => exact Or.inr ⟨fun _ h => absurd h List.not_mem_nil, rfl⟩
  | named dependency rest symbol q bound result hsymbol hvalue _ ih =>
      rcases ih with ⟨other, hother, hlater⟩ | ⟨hnone, hresult⟩
      · -- A later dependency of the same symbol is the one that counts.
        exact Or.inl ⟨other, List.mem_cons_of_mem _ hother, hlater⟩
      · rw [Bindings.bind] at hresult
        by_cases hname : name = symbol
        · rw [if_pos hname] at hresult
          exact Or.inl ⟨dependency, List.mem_cons_self, by rw [hsymbol, hname], q, hvalue, hresult⟩
        · rw [if_neg hname] at hresult
          refine Or.inr ⟨List.forall_mem_cons.mpr ⟨?_, hnone⟩, hresult⟩
          rw [hsymbol, ne_eq, Option.some.injEq]
          exact Ne.symm hname
  | unnamed dependency rest q bound result hsymbol _ _ ih =>
      rcases ih with ⟨other, hother, hlater⟩ | ⟨hnone, hresult⟩
      · exact Or.inl ⟨other, List.mem_cons_of_mem _ hother, hlater⟩
      · refine Or.inr ⟨List.forall_mem_cons.mpr ⟨?_, hnone⟩, hresult⟩
        rw [hsymbol]
        exact (Option.some_ne_none name).symm

namespace Meets

variable {known : RecordId → Option (Quantity α) → Prop} {failure : PropagationError α → Prop}

/-- A fresh context follows the empty path. -/
theorem follows_fresh (store : σ) : (Context.fresh store : Context σ α).Follows known [] where
  path_eq := rfl
  means := fun _ _ h => by simp [Context.fresh] at h

/-- Inside of a composite measurement that is asked about nothing is remembered yet. -/
theorem follows_inside (m : CompositeMeasurement) (store : σ) :
    (inside m store : Context σ α).Follows known [m] where
  path_eq := rfl
  means := fun _ _ h => by simp [inside] at h

theorem any_entry (path : List CompositeMeasurement) (id : RecordId) :
    (path.map CompositeMeasurement.entry).any (·.1 = id) = true ↔ id ∈ path.map (·.id) := by
  simp only [CompositeMeasurement.entry, List.any_map, List.any_eq_true, Function.comp_apply,
    List.mem_map]
  exact exists_congr fun m => and_congr_right fun _ => ⟨of_decide_eq_true, decide_eq_true⟩

theorem map_snd_entry (path : List CompositeMeasurement) :
    (path.map CompositeMeasurement.entry).map Prod.snd = path.map (·.label) := by
  simp [CompositeMeasurement.entry]

/-- Closing a cycle fails with the labels of the path. -/
theorem cycle (path : List CompositeMeasurement) (m : CompositeMeasurement) (value : β → Prop)
    (h : failure (.cyclicReference (path.map (·.label) ++ [m.label]))) :
    Meets (Context.Follows (σ := σ) known path) (Evaluation.cycle m) value failure := by
  intro context hcontext
  rw [run_cycle, hcontext.path_eq, map_snd_entry]
  exact h

/-- What is evaluated inside of a measurement has it at the end of the path. -/
theorem within (path : List CompositeMeasurement) (m : CompositeMeasurement)
    (body : Evaluation σ α β) (value : β → Prop)
    (hcycle : m.id ∈ path.map (·.id) →
      failure (.cyclicReference (path.map (·.label) ++ [m.label])))
    (hbody : m.id ∉ path.map (·.id) →
      Meets (Context.Follows known (path ++ [m])) body value failure) :
    Meets (Context.Follows known path) (Evaluation.within m body) value failure := by
  intro context hcontext
  rw [run_within, hcontext.path_eq]
  by_cases hmem : m.id ∈ path.map (·.id)
  · rw [if_pos ((any_entry path m.id).mpr hmem), map_snd_entry]
    exact hcycle hmem
  · rw [if_neg (mt (any_entry path m.id).mp hmem)]
    have hrun := hbody hmem { context with path := path.map CompositeMeasurement.entry ++ [m.entry] }
      ⟨by rw [List.map_append, List.map_singleton], hcontext.means⟩
    generalize body.run _ = ending at hrun ⊢
    rcases ending with ⟨e | b, next⟩
    · exact hrun
    · -- Leaving takes off what entering has put on the path.
      refine ⟨⟨?_, hrun.1.means⟩, hrun.2⟩
      rw [leave, hrun.1.path_eq, List.map_append, List.map_singleton, List.dropLast_concat]

/-- A mean is remembered under an identifier, so it has to be of the kind that is
    known of the identifier. -/
theorem remembered (path : List CompositeMeasurement) (id : RecordId)
    (compute : Evaluation σ α (Option (Quantity α))) (value : Option (Quantity α) → Prop)
    (hknown : ∀ v, known id v → value v) (hvalue : ∀ v, value v → known id v)
    (hcompute : Meets (Context.Follows known path) compute value failure) :
    Meets (Context.Follows known path) (Evaluation.remembered id compute) value failure := by
  intro context hcontext
  rw [run_remembered]
  cases hlookup : context.means.lookup id with
  | some v => exact ⟨hcontext, hknown v (hcontext.means id v hlookup)⟩
  | none =>
      have hrun := hcompute context hcontext
      generalize compute.run context = ending at hrun ⊢
      rcases ending with ⟨e | v, next⟩
      · exact hrun
      · refine ⟨⟨hrun.1.path_eq, ?_⟩, hrun.2⟩
        -- A remembered mean is either the new one or was known before.
        intro other w hother
        rw [List.lookup_cons] at hother
        by_cases hsame : other = id
        · rw [hsame, beq_self_eq_true, Option.some.injEq] at hother
          rw [hsame, ← hother]
          exact hvalue v hrun.2
        · rw [beq_false_of_ne hsame] at hother
          exact hrun.1.means other w hother

/-- The means of dependencies are bound one after the other, until one is missing
    or fails. -/
theorem bindMeans {kept : Context σ α → Prop}
    (meanOf : Measurement α → Evaluation σ α (Option (Quantity α)))
    (value : Measurement α → Option (Quantity α) → Prop) (dependencies : List (Measurement α)) :
    ∀ bound : Bindings α,
      (∀ dependency ∈ dependencies, Meets kept (meanOf dependency) (value dependency) failure) →
      Meets kept (Evaluation.bindMeans meanOf dependencies bound)
        (fun result? =>
          (result? = none ∧ ∃ dependency ∈ dependencies, value dependency none) ∨
            ∃ result, result? = some result ∧ Binds value dependencies bound result)
        failure := by
  induction dependencies with
  | nil =>
      intro bound _
      exact Meets.pure (some bound) _ (Or.inr ⟨bound, rfl, .done bound⟩)
  | cons dependency rest ih =>
      intro bound h
      have hrest : ∀ other ∈ rest, Meets kept (meanOf other) (value other) failure :=
        fun other hother => h other (List.mem_cons_of_mem _ hother)
      refine Meets.bind _ _ (value dependency) _ (h dependency List.mem_cons_self) ?_
      intro mean hmean
      cases mean with
      | none => exact Meets.pure none _ (Or.inl ⟨rfl, dependency, List.mem_cons_self, hmean⟩)
      | some q =>
          simp only
          cases hsymbol : dependency.symbol? with
          | some symbol =>
              refine (ih (bound.bind symbol q) hrest).weaken _ _ _ _ ?_ (fun _ h => h)
              rintro result? (⟨hnone, other, hother, hvalue⟩ | ⟨result, hsome, hbinds⟩)
              · exact Or.inl ⟨hnone, other, List.mem_cons_of_mem _ hother, hvalue⟩
              · exact Or.inr ⟨result, hsome,
                  .named dependency rest symbol q bound result hsymbol hmean hbinds⟩
          | none =>
              refine (ih bound hrest).weaken _ _ _ _ ?_ (fun _ h => h)
              rintro result? (⟨hnone, other, hother, hvalue⟩ | ⟨result, hsome, hbinds⟩)
              · exact Or.inl ⟨hnone, other, List.mem_cons_of_mem _ hother, hvalue⟩
              · exact Or.inr ⟨result, hsome,
                  .unnamed dependency rest q bound result hsymbol hmean hbinds⟩

section Terms

variable [DerivativeStore σ α]

/-- Differentiating changes nothing but the store. -/
theorem derivative (path : List CompositeMeasurement) (tree : Expr α) (symbol : String) :
    Meets (Context.Follows (σ := σ) known path) (Evaluation.derivative tree symbol)
      (fun _ => True) failure :=
  fun _ hcontext => ⟨⟨hcontext.path_eq, hcontext.means⟩, trivial⟩

variable [Scalar α]

/-- Contributions are added up, until one is missing or fails. Where there is a sum, there are
    the variances of all dependencies with a symbol, and they are as claimed. -/
theorem addTerms (path : List CompositeMeasurement) (tree : Expr α) (bound : Bindings α)
    (varianceOf : Measurement α → Evaluation σ α (Option (Quantity α)))
    (claimed : Measurement α → Prop) (hunit : ∀ e, failure (.unitMismatch e))
    (heval : ∀ e, failure (.ofEval e)) (dependencies : List (Measurement α)) :
    ∀ total, (∀ dependency ∈ dependencies,
        Meets (Context.Follows known path) (varianceOf dependency)
          (fun v => v.isSome → claimed dependency) failure) →
      Meets (Context.Follows known path)
        (Evaluation.addTerms tree bound varianceOf dependencies total)
        (fun v => v.isSome → ∀ dependency ∈ dependencies, dependency.symbol? ≠ none →
          claimed dependency) failure := by
  have hofUnit : ∀ {β : Type} (outcome : Except (UnitError α) β),
      Meets (Context.Follows (σ := σ) known path) (ofUnit outcome) (fun _ => True) failure := by
    intro β outcome
    refine Meets.ofExcept _ _ (fun _ _ => trivial) ?_
    intro e h
    cases outcome with
    | ok b => cases h
    | error cause => exact Except.error.inj h ▸ hunit cause
  have hofEval : ∀ outcome : Except (EvalError α) (Quantity α),
      Meets (Context.Follows (σ := σ) known path) (ofEval outcome) (fun _ => True) failure := by
    intro outcome
    refine Meets.ofExcept _ _ (fun _ _ => trivial) ?_
    intro e h
    cases outcome with
    | ok b => cases h
    | error cause => exact Except.error.inj h ▸ heval cause
  induction dependencies with
  | nil => exact fun total _ => Meets.pure _ _ fun _ _ hmem => absurd hmem List.not_mem_nil
  | cons dependency rest ih =>
      intro total h
      -- What is claimed of the first dependency is known before the others are looked at.
      have hrest : ∀ total, (dependency.symbol? ≠ none → claimed dependency) →
          Meets (Context.Follows known path)
            (Evaluation.addTerms tree bound varianceOf rest total)
            (fun v => v.isSome → ∀ other ∈ dependency :: rest, other.symbol? ≠ none →
              claimed other) failure := fun total hclaimed =>
        (ih total fun other hother => h other (List.mem_cons_of_mem _ hother)).weaken _ _ _ _
          (fun _ hv hsome => List.forall_mem_cons.mpr ⟨hclaimed, hv hsome⟩) (fun _ h => h)
      rw [Evaluation.addTerms]
      cases hsymbol : dependency.symbol? with
      | none => exact hrest total fun hnamed => absurd hsymbol hnamed
      | some symbol =>
          refine Meets.bind _ _ (fun v => v.isSome → claimed dependency) _
            (h dependency List.mem_cons_self) ?_
          intro variance? hvariance
          cases variance? with
          | none => exact Meets.pure _ _ fun hnone => by cases hnone
          | some variance =>
              have hclaimed : dependency.symbol? ≠ none → claimed dependency :=
                fun _ => hvariance rfl
              simp only
              split
              · exact hrest total hclaimed
              · refine Meets.bind _ _ (fun _ => True) _ ?_ fun contribution _ =>
                  Meets.bind _ _ (fun _ => True) _ (hofUnit _) fun sum _ => hrest sum hclaimed
                refine Meets.bind _ _ (fun _ => True) _ (derivative path tree symbol) ?_
                intro slope _
                refine Meets.bind _ _ (fun _ => True) _ (hofEval _) fun value _ => ?_
                exact Meets.bind _ _ (fun _ => True) _ (hofUnit _) fun square _ => hofUnit _

end Terms

end Meets

section Composites

variable {kept : Context σ α → Prop} {failure : PropagationError α → Prop} (g : Graph α)
  (m : CompositeMeasurement) (meanOf : Measurement α → Evaluation σ α (Option (Quantity α)))

/-- The bindings inside of a composite measurement. -/
theorem Meets.bindings (value : Measurement α → Option (Quantity α) → Prop)
    (hunresolved : ∀ e, g.dependencies m = .error e → failure e)
    (hmean : ∀ dependencies, g.dependencies m = .ok dependencies →
      ∀ dependency ∈ dependencies, Meets kept (meanOf dependency) (value dependency) failure) :
    Meets kept (Evaluation.bindings g meanOf m)
      (fun result? => ∃ dependencies, g.dependencies m = .ok dependencies ∧
        ((result? = none ∧ ∃ dependency ∈ dependencies, value dependency none) ∨
          ∃ result, result? = some result ∧ Binds value dependencies g.constants result))
      failure := by
  refine Meets.bind _ _ (fun dependencies => g.dependencies m = .ok dependencies) _
    (Meets.ofExcept _ _ (fun _ h => h) hunresolved) ?_
  intro dependencies hdependencies
  exact (Meets.bindMeans meanOf value dependencies g.constants
    (hmean dependencies hdependencies)).weaken _ _ _ _
      (fun result? h => ⟨dependencies, hdependencies, h⟩) (fun _ h => h)

/-- The mean of a composite measurement: one of its dependencies is missing, or the formula
    is evaluated. A formula without a tree does not resolve either. -/
theorem Meets.compositeMean [Scalar α] (value : Measurement α → Option (Quantity α) → Prop)
    (result : Option (Quantity α) → Prop)
    (hunresolved : ∀ e, g.dependencies m = .error e → failure e)
    (hmean : ∀ dependencies, g.dependencies m = .ok dependencies →
      ∀ dependency ∈ dependencies, Meets kept (meanOf dependency) (value dependency) failure)
    (hmissing : ∀ dependencies, g.dependencies m = .ok dependencies →
      ∀ dependency ∈ dependencies, value dependency none → result none)
    (hevaluated : ∀ tree dependencies bound q, m.tree (α := α) = .ok tree →
      g.dependencies m = .ok dependencies → Binds value dependencies g.constants bound →
        (Expr.ofDecimals tree).evaluate bound = .ok q → result (some q))
    (hunevaluated : ∀ tree dependencies bound e, m.tree (α := α) = .ok tree →
      g.dependencies m = .ok dependencies → Binds value dependencies g.constants bound →
        (Expr.ofDecimals tree).evaluate bound = .error e → failure (.ofEval e)) :
    Meets kept (Evaluation.compositeMean g meanOf m) result failure := by
  refine Meets.bind _ _ (fun tree => m.tree = .ok tree) _
    (Meets.ofExcept _ _ (fun _ h => h) (fun e htree => hunresolved e ?_)) ?_
  · rw [Graph.dependencies, htree]
    rfl
  · intro tree htree
    refine Meets.bind _ _ _ _ (Meets.bindings g m meanOf value hunresolved hmean) ?_
    rintro bound? ⟨dependencies, hdependencies, ⟨rfl, d, hd, hnone⟩ | ⟨bound, rfl, hbinds⟩⟩
    · exact Meets.pure none _ (hmissing dependencies hdependencies d hd hnone)
    · refine Meets.bind _ _ (fun q => (Expr.ofDecimals tree).evaluate bound = .ok q) _
        (Meets.ofExcept _ _ (fun q h => (Outcome.mapError_eq_ok _ _ _).mp h) ?_) ?_
      · intro e h
        rcases (Outcome.mapError_eq_error _ _ _).mp h with ⟨cause, hcause, rfl⟩
        exact hunevaluated tree dependencies bound cause htree hdependencies hbinds hcause
      · intro q heval
        exact Meets.pure (some q) _ (hevaluated tree dependencies bound q htree hdependencies
          hbinds heval)

end Composites

/-- Each measurement that is entered takes a unit of the fuel and makes the path longer by
    one. -/
theorem le_length_concat (limit fuel : Nat) (path : List CompositeMeasurement)
    (m : CompositeMeasurement) (h : limit ≤ path.length + (fuel + 1)) :
    limit ≤ (path ++ [m]).length + fuel := by
  rw [List.length_append, List.length_singleton]
  omega

section Digits

variable {failure : PropagationError α → Prop}

/-- The dependencies are counted one after the other, until one fails. The fewest digits of
    all of them come out, and of what was counted before. -/
theorem Meets.fewest {kept : Context σ α → Prop} (digitsOf : Measurement α → Evaluation σ α Nat)
    (value : Measurement α → Nat → Prop) (dependencies : List (Measurement α)) :
    ∀ digits : Option Nat,
      (∀ dependency ∈ dependencies, Meets kept (digitsOf dependency) (value dependency) failure) →
      Meets kept (Evaluation.fewest digitsOf dependencies digits)
        (fun result => ∃ counted : List (Measurement α × Nat),
          dependencies = counted.map Prod.fst ∧ (∀ entry ∈ counted, value entry.1 entry.2) ∧
            result = (digits.toList ++ counted.map Prod.snd).min?)
        failure := by
  induction dependencies with
  | nil =>
      intro digits _
      refine Meets.pure digits _ ⟨[], rfl, fun _ h => absurd h List.not_mem_nil, ?_⟩
      cases digits <;> rfl
  | cons dependency rest ih =>
      intro digits h
      refine Meets.bind _ _ (value dependency) _ (h dependency List.mem_cons_self) ?_
      intro d hd
      refine (ih _ fun other hother => h other (List.mem_cons_of_mem _ hother)).weaken _ _ _ _ ?_
        (fun _ h => h)
      rintro result ⟨counted, rfl, hcounted, rfl⟩
      refine ⟨(dependency, d) :: counted, rfl, List.forall_mem_cons.mpr ⟨hd, hcounted⟩, ?_⟩
      cases digits <;> rfl

/-- What is claimed of counting digits in a graph: of each measurement that is
    reached on some path, and of its failure. -/
structure DigitsAccount (g : Graph α) where
  reached : List CompositeMeasurement → Measurement α → Prop
  value : Measurement α → Prop
  failure : Measurement α → PropagationError α → Prop
  limit : Nat
  direct_value : ∀ path m, reached path (.direct m) → value (.direct m)
  closes : ∀ path m, reached path (.composite m) →
    m.id ∈ path.map (·.id) ∨ limit ≤ path.length →
      failure (.composite m) (.cyclicReference (path.map (·.label) ++ [m.label]))
  unresolved : ∀ path m e, reached path (.composite m) → g.dependencies m = .error e →
    failure (.composite m) e
  enters : ∀ path m dependencies, reached path (.composite m) → m.id ∉ path.map (·.id) →
    g.dependencies m = .ok dependencies →
      ∀ dependency ∈ dependencies, reached (path ++ [m]) dependency
  fails : ∀ path m dependencies, reached path (.composite m) → g.dependencies m = .ok dependencies →
    ∀ dependency ∈ dependencies, ∀ e, failure dependency e → failure (.composite m) e
  counted : ∀ path m dependencies, reached path (.composite m) →
    g.dependencies m = .ok dependencies → (∀ dependency ∈ dependencies, value dependency) →
      value (.composite m)

/-- Counting is as the account claims, as long as the fuel reaches up to the
    limit. -/
theorem DigitsAccount.meets {g : Graph α} (account : DigitsAccount g)
    (known : RecordId → Option (Quantity α) → Prop) (fuel : Nat) :
    ∀ path m, account.reached path m → account.limit ≤ path.length + fuel →
      Meets (Context.Follows (σ := σ) known path) (minDigits g fuel m)
        (fun _ => account.value m) (account.failure m) := by
  induction fuel with
  | zero =>
      intro path m hreached hlimit
      cases m with
      | direct m => exact Meets.pure _ _ (account.direct_value path m hreached)
      | composite m => exact Meets.cycle path m _ (account.closes path m hreached (Or.inr hlimit))
  | succ fuel ih =>
      intro path m hreached hlimit
      cases m with
      | direct m => exact Meets.pure _ _ (account.direct_value path m hreached)
      | composite m =>
          refine Meets.within path m _ _
            (fun hmem => account.closes path m hreached (Or.inl hmem)) (fun hnew => ?_)
          have hlength : account.limit ≤ (path ++ [m]).length + fuel :=
            le_length_concat _ fuel path m hlimit
          refine Meets.bind _ _ (fun dependencies => g.dependencies m = .ok dependencies) _
            (Meets.ofExcept _ _ (fun _ h => h) (fun e h => account.unresolved path m e hreached h)) ?_
          intro dependencies hdependencies
          refine Meets.bind _ _ _ _
            (Meets.fewest _ (fun dependency _ => account.value dependency) dependencies none ?_) ?_
          · intro dependency hdependency
            have hdep := account.enters path m dependencies hreached hnew hdependencies
              dependency hdependency
            exact (ih (path ++ [m]) dependency hdep hlength).weaken _ _ _ _ (fun _ h => h)
              (account.fails path m dependencies hreached hdependencies dependency hdependency)
          · rintro digits ⟨counted, hall, hcounted, -⟩
            refine Meets.pure _ _ (account.counted path m dependencies hreached hdependencies ?_)
            rw [hall]
            exact List.forall_mem_map.mpr hcounted

end Digits

section Means

variable [Scalar α]

/-- What is claimed of the means in a graph: of the value and of the failure of
    each measurement that is reached on some path, and of what is remembered
    under an identifier. The limit is the length of a path on which no further
    measurement can be entered. -/
structure MeanAccount (g : Graph α) where
  reached : List CompositeMeasurement → Measurement α → Prop
  value : Measurement α → Option (Quantity α) → Prop
  failure : Measurement α → PropagationError α → Prop
  known : RecordId → Option (Quantity α) → Prop
  limit : Nat
  value_of_known : ∀ path m v, reached path m → known m.id v → value m v
  known_of_value : ∀ path m v, reached path m → value m v → known m.id v
  direct_value : ∀ path m v, reached path (.direct m) → directMean m = .ok v → value (.direct m) v
  direct_failure : ∀ path m e, reached path (.direct m) → directMean m = .error e →
    failure (.direct m) e
  closes : ∀ path m, reached path (.composite m) →
    m.id ∈ path.map (·.id) ∨ limit ≤ path.length →
      failure (.composite m) (.cyclicReference (path.map (·.label) ++ [m.label]))
  unresolved : ∀ path m e, reached path (.composite m) → g.dependencies m = .error e →
    failure (.composite m) e
  enters : ∀ path m dependencies, reached path (.composite m) → m.id ∉ path.map (·.id) →
    g.dependencies m = .ok dependencies →
      ∀ dependency ∈ dependencies, reached (path ++ [m]) dependency
  fails : ∀ path m dependencies, reached path (.composite m) → g.dependencies m = .ok dependencies →
    ∀ dependency ∈ dependencies, ∀ e, failure dependency e → failure (.composite m) e
  missing : ∀ path m dependencies, reached path (.composite m) →
    g.dependencies m = .ok dependencies →
      ∀ dependency ∈ dependencies, value dependency none → value (.composite m) none
  evaluated : ∀ path m tree dependencies bound q, reached path (.composite m) →
    m.tree (α := α) = .ok tree → g.dependencies m = .ok dependencies →
      Binds value dependencies g.constants bound →
        (Expr.ofDecimals tree).evaluate bound = .ok q → value (.composite m) (some q)
  unevaluated : ∀ path m tree dependencies bound e, reached path (.composite m) →
    m.tree (α := α) = .ok tree → g.dependencies m = .ok dependencies →
      Binds value dependencies g.constants bound →
        (Expr.ofDecimals tree).evaluate bound = .error e → failure (.composite m) (.ofEval e)

namespace MeanAccount

variable {g : Graph α} (account : MeanAccount g)

/-- What is claimed of the bindings inside of a composite measurement. -/
def Bound (m : CompositeMeasurement) (result? : Option (Bindings α)) : Prop :=
  ∃ dependencies, g.dependencies m = .ok dependencies ∧
    ((result? = none ∧ ∃ dependency ∈ dependencies, account.value dependency none) ∨
      ∃ result, result? = some result ∧ Binds account.value dependencies g.constants result)

/-- The dependencies of a measurement that is entered are as claimed, and so are its own
    failures where one of them fails. -/
theorem dependencies_meet (path : List CompositeMeasurement) (m : CompositeMeasurement)
    (meanOf : Measurement α → Evaluation σ α (Option (Quantity α)))
    (hreached : account.reached path (.composite m)) (hnew : m.id ∉ path.map (·.id))
    (hmean : ∀ dependency, account.reached (path ++ [m]) dependency →
      Meets (Context.Follows account.known (path ++ [m])) (meanOf dependency)
        (account.value dependency) (account.failure dependency)) :
    ∀ dependencies, g.dependencies m = .ok dependencies → ∀ dependency ∈ dependencies,
      Meets (Context.Follows account.known (path ++ [m])) (meanOf dependency)
        (account.value dependency) (account.failure (.composite m)) := by
  intro dependencies hdependencies dependency hdependency
  have hdep := account.enters path m dependencies hreached hnew hdependencies dependency hdependency
  exact (hmean dependency hdep).weaken _ _ _ _ (fun _ h => h)
    (account.fails path m dependencies hreached hdependencies dependency hdependency)

/-- The bindings inside of a measurement, if its dependencies are as claimed. -/
theorem bindings_meets (path : List CompositeMeasurement) (m : CompositeMeasurement)
    (meanOf : Measurement α → Evaluation σ α (Option (Quantity α)))
    (hreached : account.reached path (.composite m)) (hnew : m.id ∉ path.map (·.id))
    (hmean : ∀ dependency, account.reached (path ++ [m]) dependency →
      Meets (Context.Follows account.known (path ++ [m])) (meanOf dependency)
        (account.value dependency) (account.failure dependency)) :
    Meets (Context.Follows account.known (path ++ [m])) (bindings g meanOf m) (account.Bound m)
      (account.failure (.composite m)) :=
  Meets.bindings g m meanOf account.value (fun e h => account.unresolved path m e hreached h)
    (account.dependencies_meet path m meanOf hreached hnew hmean)

/-- Means are as the account claims, as long as the fuel reaches up to the
    limit. -/
theorem meets (fuel : Nat) :
    ∀ path m, account.reached path m → account.limit ≤ path.length + fuel →
      Meets (Context.Follows (σ := σ) account.known path) (mean g fuel m) (account.value m)
        (account.failure m) := by
  have hdirect : ∀ path m, account.reached path (.direct m) →
      Meets (Context.Follows (σ := σ) account.known path)
        (remembered m.id (ofExcept (directMean m))) (account.value (.direct m))
        (account.failure (.direct m)) := by
    intro path m hreached
    exact Meets.remembered path m.id _ _ (fun v => account.value_of_known path _ v hreached)
      (fun v => account.known_of_value path _ v hreached)
      (Meets.ofExcept _ _ (fun v => account.direct_value path m v hreached)
        (fun e => account.direct_failure path m e hreached))
  induction fuel with
  | zero =>
      intro path m hreached hlimit
      cases m with
      | direct m => exact hdirect path m hreached
      | composite m =>
          exact Meets.remembered path m.id _ _ (fun v => account.value_of_known path _ v hreached)
            (fun v => account.known_of_value path _ v hreached)
            (Meets.cycle path m _ (account.closes path m hreached (Or.inr hlimit)))
  | succ fuel ih =>
      intro path m hreached hlimit
      cases m with
      | direct m => exact hdirect path m hreached
      | composite m =>
          refine Meets.remembered path m.id _ _
            (fun v => account.value_of_known path _ v hreached)
            (fun v => account.known_of_value path _ v hreached)
            (Meets.within path m _ _
              (fun hmem => account.closes path m hreached (Or.inl hmem)) (fun hnew => ?_))
          have hlength : account.limit ≤ (path ++ [m]).length + fuel :=
            le_length_concat _ fuel path m hlimit
          exact Meets.compositeMean g m (mean g fuel) account.value _
            (fun e h => account.unresolved path m e hreached h)
            (account.dependencies_meet path m (mean g fuel) hreached hnew
              (fun dependency hdep => ih (path ++ [m]) dependency hdep hlength))
            (fun dependencies => account.missing path m dependencies hreached)
            (fun tree dependencies bound q => account.evaluated path m tree dependencies bound q
              hreached)
            (fun tree dependencies bound e => account.unevaluated path m tree dependencies bound e
              hreached)

end MeanAccount

end Means

end Evaluation

end Metrology
