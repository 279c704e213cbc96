/-!
# Outcomes of checked operations

What it means that a sequence of operations succeeds, each of which may fail.
Every check of units, quantities and formulas is such a sequence, and a proof
about one starts by taking a success apart into the successes of its steps.

## Main definitions

* `Outcome.Yields`: What an outcome is like, whether a value or a failure.
* `Outcome.Agree`, `Outcome.Parallel`: Two outcomes side by side.

## Theorems

* `Outcome.bind_eq_ok`: A sequence succeeds when each step does.
* `Outcome.pure_eq_ok`: A plain value is a success with that value.
* `Outcome.map_eq_ok`: A changed success comes from a success.
* `Outcome.mapError_ok`, `Outcome.mapError_error`, `Outcome.mapError_eq_ok`:
  Changing the failure changes no success.
* `Outcome.bind_eq_error`, `Outcome.mapError_eq_error`: Where failures come from.
* `Outcome.eq_ok_of_toOption`, `Outcome.exists_of_toOption_isSome`: Results that are told
  by a test.
* `Outcome.bind_congr`: When two sequences agree.
* `Outcome.foldlM_keeps`: What every step of a fold keeps holds at its end.
* `Outcome.foldlM_eq_error`: A fold fails where one of its steps fails.
* `Outcome.Yields.bind`, `Outcome.Yields.weaken`: What outcomes of sequences are
  like.
* `Outcome.Parallel.bind`, `Outcome.Parallel.agree`: Sequences side by side.
* `Outcome.run_bind`, `Outcome.run_bind_eq_ok`, `Outcome.fst_bind_eq_ok`: Sequences that
  carry a state.
-/

namespace Metrology.Outcome

variable {ε ε' α β : Type}

@[simp]
theorem bind_eq_ok (x : Except ε α) (f : α → Except ε β) (b : β) :
    (x >>= f) = .ok b ↔ ∃ a, x = .ok a ∧ f a = .ok b := by
  cases x <;> simp [bind, Except.bind]

@[simp]
theorem pure_eq_ok (a b : α) : (pure a : Except ε α) = .ok b ↔ a = b := by
  simp [pure, Except.pure]

@[simp]
theorem map_eq_ok (x : Except ε α) (f : α → β) (b : β) :
    x.map f = .ok b ↔ ∃ a, x = .ok a ∧ f a = b := by
  cases x <;> simp [Except.map]

@[simp]
theorem mapError_ok (f : ε → ε') (a : α) : (.ok a : Except ε α).mapError f = .ok a := rfl

@[simp]
theorem mapError_error (f : ε → ε') (e : ε) :
    (.error e : Except ε α).mapError f = .error (f e) := rfl

@[simp]
theorem mapError_eq_ok (x : Except ε α) (f : ε → ε') (a : α) :
    x.mapError f = .ok a ↔ x = .ok a := by
  cases x <;> simp

@[simp]
theorem bind_eq_error (x : Except ε α) (f : α → Except ε β) (e : ε) :
    (x >>= f) = .error e ↔ x = .error e ∨ ∃ a, x = .ok a ∧ f a = .error e := by
  cases x <;> simp [bind, Except.bind]

/-- Two sequences agree whose first steps do, if what follows a success does. -/
theorem bind_congr (x x' : Except ε α) (f f' : α → Except ε β) (hx : x' = x)
    (hf : ∀ a, x = .ok a → f' a = f a) : (x' >>= f') = (x >>= f) := by
  rw [hx]
  cases x with
  | ok a => exact hf a rfl
  | error e => rfl

theorem mapError_eq_error (x : Except ε α) (f : ε → ε') (e : ε') :
    x.mapError f = .error e ↔ ∃ cause, x = .error cause ∧ f cause = e := by
  cases x <;> simp

theorem eq_ok_of_toOption (x : Except ε α) (a : α) (h : x.toOption = some a) : x = .ok a := by
  cases x with
  | error e => simp [Except.toOption] at h
  | ok b => rw [Option.some.inj h]

/-- A result that is there, told without the result. -/
theorem exists_of_toOption_isSome (x : Except ε (Option α))
    (h : x.toOption.map Option.isSome = some true) : ∃ a, x = .ok (some a) := by
  rcases Option.map_eq_some_iff.mp h with ⟨found, hfound, hsome⟩
  rcases Option.isSome_iff_exists.mp hsome with ⟨a, rfl⟩
  exact ⟨a, eq_ok_of_toOption x _ hfound⟩

theorem eq_ok_none_of_toOption_isNone (x : Except ε (Option α))
    (h : x.toOption.map Option.isNone = some true) : x = .ok none := by
  rcases Option.map_eq_some_iff.mp h with ⟨found, hfound, hnone⟩
  rw [eq_ok_of_toOption x found hfound, Option.isNone_iff_eq_none.mp hnone]

/-- What every step of a fold keeps holds at its end. -/
theorem foldlM_keeps (holds : β → Prop) (step : β → α → Except ε β) (xs : List α)
    (hstep : ∀ b x b', x ∈ xs → holds b → step b x = .ok b' → holds b') :
    ∀ b b', holds b → xs.foldlM step b = .ok b' → holds b' := by
  induction xs with
  | nil =>
      intro b b' hb h
      rw [List.foldlM_nil, pure_eq_ok] at h
      exact h ▸ hb
  | cons x rest ih =>
      intro b b' hb h
      rw [List.foldlM_cons, bind_eq_ok] at h
      rcases h with ⟨next, hnext, hrest⟩
      exact ih (fun b y b' hy => hstep b y b' (List.mem_cons_of_mem _ hy)) next b'
        (hstep b x next List.mem_cons_self hb hnext) hrest

/-- A fold fails where one of its steps fails. -/
theorem foldlM_eq_error (step : β → α → Except ε β) (xs : List α) :
    ∀ b e, xs.foldlM step b = .error e → ∃ b', ∃ x ∈ xs, step b' x = .error e := by
  induction xs with
  | nil =>
      intro b e h
      simp [pure, Except.pure] at h
  | cons x rest ih =>
      intro b e h
      rw [List.foldlM_cons] at h
      cases hstep : step b x with
      | error cause =>
          rw [hstep] at h
          exact ⟨b, x, List.mem_cons_self, hstep.trans h⟩
      | ok next =>
          rw [hstep] at h
          rcases ih next e h with ⟨b', y, hy, herror⟩
          exact ⟨b', y, List.mem_cons_of_mem _ hy, herror⟩

/-- An outcome with a value or a failure of a given kind. -/
def Yields (value : α → Prop) (failure : ε → Prop) : Except ε α → Prop
  | .ok a => value a
  | .error e => failure e

namespace Yields

variable {value : α → Prop} {failure : ε → Prop}

theorem of_cases (x : Except ε α) (hvalue : ∀ a, x = .ok a → value a)
    (hfailure : ∀ e, x = .error e → failure e) : Yields value failure x := by
  cases x with
  | ok a => exact hvalue a rfl
  | error e => exact hfailure e rfl

/-- An outcome yields itself. -/
theorem self (x : Except ε α) (hfailure : ∀ e, x = .error e → failure e) :
    Yields (fun a => x = .ok a) failure x :=
  of_cases x (fun _ h => h) hfailure

theorem bind (x : Except ε α) (f : α → Except ε β) (value' : β → Prop)
    (hx : Yields value failure x) (hf : ∀ a, value a → Yields value' failure (f a)) :
    Yields value' failure (x >>= f) := by
  cases x with
  | ok a => exact hf a hx
  | error e => exact hx

theorem weaken (x : Except ε α) (value' : α → Prop) (failure' : ε → Prop)
    (hx : Yields value failure x) (hvalue : ∀ a, value a → value' a)
    (hfailure : ∀ e, failure e → failure' e) : Yields value' failure' x := by
  cases x with
  | ok a => exact hvalue a hx
  | error e => exact hfailure e hx

theorem mapError (x : Except ε α) (f : ε → ε') (failure' : ε' → Prop)
    (hx : Yields value failure x) (hfailure : ∀ e, failure e → failure' (f e)) :
    Yields value failure' (x.mapError f) := by
  cases x with
  | ok a => exact hx
  | error e => exact hfailure e hx

theorem value_of_ok (x : Except ε α) (a : α) (hx : Yields value failure x) (h : x = .ok a) :
    value a := by
  subst h
  exact hx

theorem failure_of_error (x : Except ε α) (e : ε) (hx : Yields value failure x)
    (h : x = .error e) : failure e := by
  subst h
  exact hx

end Yields

section Pairs

variable {α' β' : Type}

/-- Two outcomes that agree: their values are related, or their failures are. -/
def Agree (value : α → α' → Prop) (failure : ε → ε → Prop) : Except ε α → Except ε α' → Prop
  | .ok a, .ok a' => value a a'
  | .error e, .error e' => failure e e'
  | _, _ => False

/-- Outcomes that agree are both values or both failures. -/
theorem Agree.elim (value : α → α' → Prop) (failure : ε → ε → Prop) (x : Except ε α)
    (y : Except ε α') (h : Agree value failure x y) :
    (∃ a a', x = .ok a ∧ y = .ok a' ∧ value a a') ∨
      ∃ e e', x = .error e ∧ y = .error e' ∧ failure e e' := by
  cases x with
  | ok a =>
      cases y with
      | ok a' => exact Or.inl ⟨a, a', rfl, rfl, h⟩
      | error e' => exact False.elim h
  | error e =>
      cases y with
      | ok a' => exact False.elim h
      | error e' => exact Or.inr ⟨e, e', rfl, rfl, h⟩

theorem Agree.imp (value value' : α → α' → Prop) (failure : ε → ε → Prop) (x : Except ε α)
    (y : Except ε α') (h : Agree value failure x y) (hvalue : ∀ a a', value a a' → value' a a') :
    Agree value' failure x y := by
  rcases h.elim with ⟨a, a', rfl, rfl, ha⟩ | ⟨e, e', rfl, rfl, he⟩
  · exact hvalue a a' ha
  · exact he

/-- Two outcomes that agree, unless one of them is a failure that is excused. -/
def Parallel (excused : ε → Prop) (value : α → α' → Prop) (failure : ε → ε → Prop)
    (x : Except ε α) (y : Except ε α') : Prop :=
  (∃ e, x = .error e ∧ excused e) ∨ (∃ e, y = .error e ∧ excused e) ∨ Agree value failure x y

namespace Parallel

variable {excused : ε → Prop} {value : α → α' → Prop} {failure : ε → ε → Prop}

theorem ok (a : α) (a' : α') (h : value a a') :
    Parallel excused value failure (.ok a) (.ok a') :=
  Or.inr (Or.inr h)

theorem error (e e' : ε) (h : failure e e') :
    Parallel excused value failure (.error e : Except ε α) (.error e' : Except ε α') :=
  Or.inr (Or.inr h)

/-- Outcomes with values of given kinds and no failures but excused ones. -/
theorem of_yields (left : α → Prop) (right : α' → Prop) (x : Except ε α) (y : Except ε α')
    (hx : Yields left excused x) (hy : Yields right excused y)
    (h : ∀ a a', left a → right a' → value a a') : Parallel excused value failure x y := by
  cases x with
  | error e => exact Or.inl ⟨e, rfl, hx⟩
  | ok a =>
      cases y with
      | error e => exact Or.inr (Or.inl ⟨e, rfl, hy⟩)
      | ok a' => exact ok a a' (h a a' hx hy)

/-- Sequences go side by side if their first steps do, and what follows those. -/
theorem bind (between : β → β' → Prop) (x : Except ε β) (y : Except ε β') (f : β → Except ε α)
    (g : β' → Except ε α') (hxy : Parallel excused between failure x y)
    (hfg : ∀ b b', x = .ok b → y = .ok b' → between b b' →
      Parallel excused value failure (f b) (g b')) :
    Parallel excused value failure (x >>= f) (y >>= g) := by
  rcases hxy with ⟨e, rfl, he⟩ | ⟨e, rfl, he⟩ | h
  · exact Or.inl ⟨e, rfl, he⟩
  · exact Or.inr (Or.inl ⟨e, rfl, he⟩)
  · rcases h.elim with ⟨b, b', rfl, rfl, hb⟩ | ⟨e, e', rfl, rfl, he⟩
    · exact hfg b b' rfl rfl hb
    · exact error e e' he

theorem mapError (f : ε → ε') (excused' : ε' → Prop) (failure' : ε' → ε' → Prop)
    (x : Except ε α) (y : Except ε α') (h : Parallel excused value failure x y)
    (hexcused : ∀ e, excused e → excused' (f e))
    (hfailure : ∀ e e', failure e e' → failure' (f e) (f e')) :
    Parallel excused' value failure' (x.mapError f) (y.mapError f) := by
  rcases h with ⟨e, rfl, he⟩ | ⟨e, rfl, he⟩ | h
  · exact Or.inl ⟨f e, rfl, hexcused e he⟩
  · exact Or.inr (Or.inl ⟨f e, rfl, hexcused e he⟩)
  · rcases h.elim with ⟨a, a', rfl, rfl, ha⟩ | ⟨e, e', rfl, rfl, he⟩
    · exact ok a a' ha
    · exact error _ _ (hfailure e e' he)

/-- Without an excuse the outcomes agree. -/
theorem agree (x : Except ε α) (y : Except ε α') (h : Parallel excused value failure x y)
    (hx : ∀ e, x = .error e → ¬ excused e) (hy : ∀ e, y = .error e → ¬ excused e) :
    Agree value failure x y := by
  rcases h with ⟨e, he, hexcused⟩ | ⟨e, he, hexcused⟩ | h
  · exact absurd hexcused (hx e he)
  · exact absurd hexcused (hy e he)
  · exact h

end Parallel

end Pairs

section States

variable {s : Type}

/-- A sequence that carries a state along: what follows a value starts in the
    state that the value leaves, and nothing follows a failure. -/
theorem run_bind (x : ExceptT ε (StateM s) α) (f : α → ExceptT ε (StateM s) β) (state : s) :
    (x >>= f).run state =
      match x.run state with
      | (.ok a, next) => (f a).run next
      | (.error e, next) => (.error e, next) := by
  change (ExceptT.bindCont f (x.run state).1).run (x.run state).2 = _
  rcases x.run state with ⟨_ | _, _⟩ <;> rfl

theorem run_bind_eq_ok (x : ExceptT ε (StateM s) α) (f : α → ExceptT ε (StateM s) β) (state : s)
    (b : β) (last : s) :
    (x >>= f).run state = (.ok b, last) ↔
      ∃ a next, x.run state = (.ok a, next) ∧ (f a).run next = (.ok b, last) := by
  rw [run_bind]
  rcases x.run state with ⟨e | a, next⟩
  · constructor
    · intro h
      cases h
    · rintro ⟨a, other, h, -⟩
      cases h
  · constructor
    · exact fun h => ⟨a, next, rfl, h⟩
    · rintro ⟨a', next', h, hf⟩
      cases h
      exact hf

@[simp]
theorem run_get (state : s) :
    (get : ExceptT ε (StateM s) s).run state = (.ok state, state) := rfl

@[simp]
theorem run_mk_pure (outcome : Except ε α) (state : s) :
    (ExceptT.mk (pure outcome) : ExceptT ε (StateM s) α).run state = (outcome, state) := rfl

theorem fst_bind_eq_ok (x : ExceptT ε (StateM s) α) (f : α → ExceptT ε (StateM s) β) (state : s)
    (b : β) :
    ((x >>= f).run state).1 = .ok b ↔
      ∃ a next, x.run state = (.ok a, next) ∧ ((f a).run next).1 = .ok b := by
  constructor
  · intro h
    rcases (run_bind_eq_ok x f state b _).mp (Prod.ext h rfl) with ⟨a, next, hx, hf⟩
    exact ⟨a, next, hx, congrArg Prod.fst hf⟩
  · rintro ⟨a, next, hx, hf⟩
    exact congrArg Prod.fst ((run_bind_eq_ok x f state b _).mpr ⟨a, next, hx, Prod.ext hf rfl⟩)

theorem run_eq_of_toOption (x : ExceptT ε (StateM s) α) (state : s) (a : α)
    (h : (x.run state).1.toOption = some a) : x.run state = (.ok a, (x.run state).2) :=
  Prod.ext (eq_ok_of_toOption _ a h) rfl

end States

end Metrology.Outcome
