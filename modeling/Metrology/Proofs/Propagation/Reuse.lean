import Metrology.Proofs.Propagation.Recomputed
import Metrology.Proofs.Propagation.Transparency

/-!
# Contexts are reused

Any number of questions may be put to one context, one after the other. What earlier ones
have left there are means, which are those of the graph, and a store of derivatives, which
goes on answering. The path is empty again after each of them, also after a failure. So an
answer does not depend on the questions before it: it is the one of a fresh context, and
the one of the recursion that remembers no means.

## Main definitions

* `Evaluation.Question`, `Evaluation.Answer`: What a context is asked, and what it says.
* `Evaluation.Question.ask`, `Evaluation.Question.askAnew`: The answer with the means that
  are remembered, and without.
* `Evaluation.after`: The context that questions leave behind.
* `Evaluation.Reusable`: A context that answers like a fresh one.

## Theorems

* `Evaluation.minDigits_readsPath`: Counting digits leaves the context alone.
* `Evaluation.Reusable.ask`: A context that answers like a fresh one, and goes on so.
* `Evaluation.reuse`: Earlier questions change no answer.
-/

namespace Metrology.Evaluation

variable {σ α β γ : Type}

section Digits

/-- A computation that looks at nothing but the path, and leaves the context alone. -/
def ReadsPath (x : Evaluation σ α β) : Prop :=
  ∀ context other : Context σ α, context.path = other.path →
    (x.run context).1 = (x.run other).1 ∧ (x.run context).2 = context

namespace ReadsPath

theorem pure (b : β) : ReadsPath (σ := σ) (α := α) (Pure.pure b) := fun _ _ _ => ⟨rfl, rfl⟩

theorem ofExcept (outcome : Except (PropagationError α) β) :
    ReadsPath (σ := σ) (Evaluation.ofExcept outcome) :=
  fun _ _ _ => ⟨rfl, rfl⟩

theorem cycle (m : CompositeMeasurement) :
    ReadsPath (σ := σ) (α := α) (β := β) (Evaluation.cycle m) := by
  intro context other hpath
  rw [run_cycle, run_cycle, hpath]
  exact ⟨rfl, rfl⟩

theorem bind (x : Evaluation σ α β) (f : β → Evaluation σ α γ) (hx : ReadsPath x)
    (hf : ∀ b, ReadsPath (f b)) : ReadsPath (x >>= f) := by
  intro context other hpath
  rcases hx context other hpath with ⟨houtcome, hcontext⟩
  have hother := (hx other context hpath.symm).2
  rw [Outcome.run_bind, Outcome.run_bind]
  generalize x.run context = ending at houtcome hcontext ⊢
  generalize x.run other = ending' at houtcome hother ⊢
  rcases ending with ⟨outcome, next⟩
  rcases ending' with ⟨outcome', next'⟩
  simp only at houtcome hcontext hother
  subst houtcome hcontext hother
  cases outcome with
  | error e => exact ⟨rfl, rfl⟩
  | ok b => exact hf b _ _ hpath

theorem within (m : CompositeMeasurement) (body : Evaluation σ α β) (h : ReadsPath body) :
    ReadsPath (Evaluation.within m body) := by
  intro context other hpath
  rw [run_within, run_within, hpath]
  by_cases hclosed : other.path.any (·.1 = m.id) = true
  · rw [if_pos hclosed, if_pos hclosed]
    exact ⟨rfl, rfl⟩
  · rw [if_neg hclosed, if_neg hclosed]
    rcases h { context with path := other.path ++ [m.entry] }
      { other with path := other.path ++ [m.entry] } rfl with ⟨houtcome, hcontext⟩
    refine ⟨houtcome, ?_⟩
    rw [hcontext, leave]
    simp only [List.dropLast_concat]
    rw [← hpath]

theorem fewest (digitsOf : Measurement α → Evaluation σ α Nat)
    (h : ∀ m, ReadsPath (digitsOf m)) (dependencies : List (Measurement α)) :
    ∀ digits, ReadsPath (Evaluation.fewest digitsOf dependencies digits) := by
  induction dependencies with
  | nil => exact fun digits => ReadsPath.pure digits
  | cons dependency rest ih => exact fun digits => ReadsPath.bind _ _ (h dependency) fun d => ih _

end ReadsPath

/-- Counting digits remembers nothing. -/
theorem minDigits_readsPath (g : Graph α) (fuel : Nat) :
    ∀ m, ReadsPath (σ := σ) (minDigits g fuel m) := by
  induction fuel with
  | zero =>
      intro m
      cases m with
      | direct m => exact ReadsPath.pure _
      | composite m => exact ReadsPath.cycle m
  | succ fuel ih =>
      intro m
      cases m with
      | direct m => exact ReadsPath.pure _
      | composite m =>
          refine ReadsPath.within m _ (ReadsPath.bind _ _ (ReadsPath.ofExcept _) ?_)
          intro dependencies
          exact ReadsPath.bind _ _ (ReadsPath.fewest _ ih dependencies none)
            fun digits => ReadsPath.pure _

end Digits

/-- What a context is asked about a measurement. -/
inductive Question (α : Type) where
  | mean (m : Measurement α)
  | variance (m : Measurement α) (types : UncertaintyTypes)
  | digits (m : Measurement α)

/-- What a context says. -/
inductive Answer (α : Type) where
  | quantity (value : Option (Quantity α))
  | count (digits : Nat)

/-- The measurement that a question is about. -/
def Question.subject : Question α → Measurement α
  | mean m => m
  | variance m _ => m
  | digits m => m

variable [Scalar α] [DerivativeStore σ α]

/-- The answer to a question. -/
def Question.ask (g : Graph α) : Question α → Evaluation σ α (Answer α)
  | mean m => do return .quantity (← Evaluation.mean g (g.depth m) m)
  | variance m types => do return .quantity (← combinedVariance g types (g.depth m) m)
  | digits m => do return .count (← minDigits g (g.depth m) m)

/-- The answer to a question, with every mean evaluated anew. -/
def Question.askAnew (g : Graph α) : Question α → Evaluation σ α (Answer α)
  | mean m => do return .quantity (← meanAnew g (g.depth m) m)
  | variance m types => do return .quantity (← combinedVarianceAnew g types (g.depth m) m)
  | digits m => do return .count (← minDigits g (g.depth m) m)

/-- The context that questions leave behind, put one after the other. -/
def after (g : Graph α) (questions : List (Question α)) (context : Context σ α) : Context σ α :=
  questions.foldl (fun context q => ((q.ask g).run context).2) context

/-- A context on no path, with means of the graph and a store that answers. -/
structure Reusable (g : Graph α) (asked : Expr α → String → Prop) (context : Context σ α) :
    Prop where
  follows : context.Follows g.Known []
  store : DerivativeStore.Answers asked context.store

namespace Reusable

variable (g : Graph α) (asked : Expr α → String → Prop)

theorem fresh (store : σ) (h : DerivativeStore.Answers asked store) :
    Reusable g asked (.fresh store) :=
  ⟨Meets.follows_fresh store, h⟩

/-- A computation that remembers means answers in a reusable context like in a fresh one,
    and like the computation that does not. -/
theorem answer (x anew : Evaluation σ α β) (x' anew' : Evaluation (NoMemory α) α β)
    (hstores : Transparent (DerivativeStore.Answers asked) x x')
    (hanew : Recomputes g [] x anew fun _ => True)
    (hanew' : Recomputes g [] x' anew' fun _ => True) (context : Context σ α)
    (hcontext : Reusable g asked context) (store : σ)
    (hstore : DerivativeStore.Answers asked store) :
    (x.run context).1 = (x.run (.fresh store)).1 ∧
      (x.run (.fresh store)).1 = (anew.run (.fresh store)).1 ∧
        Reusable g asked (x.run context).2 := by
  -- Without a store, the contexts differ in what they remember only.
  let plain : Context (NoMemory α) α := ⟨context.path, context.means, ⟨⟩⟩
  have hplain := hstores context plain ⟨rfl, rfl, hcontext.store⟩
  have hfresh := hstores (.fresh store) (.fresh ⟨⟩) ⟨rfl, rfl, hstore⟩
  have hremembered := hanew' plain (.fresh ⟨⟩)
    (.fresh ⟨hcontext.follows.path_eq, hcontext.follows.means⟩)
  have hnothing := hanew' (.fresh ⟨⟩) (.fresh ⟨⟩) (.fresh (Meets.follows_fresh _))
  have hsame := hanew (.fresh store) (.fresh store) (.fresh (Meets.follows_fresh store))
  have hkept := hanew context _ (.fresh hcontext.follows)
  refine ⟨?_, hsame.1, hkept.2.2.follows, hplain.2.store⟩
  rw [hplain.1, hremembered.1, hfresh.1, hnothing.1]

/-- A question is answered in a reusable context like in a fresh one, and like without
    remembered means. It leaves a reusable context behind. -/
theorem ask (hids : g.DistinctIds) (q : Question α) (hq : q.subject ∈ g.measurements)
    (hasked : ∀ tree symbol, g.Asks q.subject tree symbol → asked tree symbol)
    (context : Context σ α) (hcontext : Reusable g asked context) (store : σ)
    (hstore : DerivativeStore.Answers asked store) :
    ((q.ask g).run context).1 = ((q.ask g).run (.fresh store)).1 ∧
      ((q.ask g).run (.fresh store)).1 = ((q.askAnew g).run (.fresh store)).1 ∧
        Reusable g asked ((q.ask g).run context).2 := by
  have hkeeps := DerivativeStore.keeps_answers (σ := σ) asked
  cases q with
  | mean m =>
      have hpursuit := Graph.Pursuit.start g m hq
      refine Reusable.answer g asked _ _ _ _
        (Related.bind _ _ _ _ (mean_transparent _ g _ m) fun v => Related.pure _)
        (Recomputes.bind _ _ _ _ _ _ (mean_recomputes g hids m _ [] m hpursuit ?_)
          fun v _ => Recomputes.pure _ _ trivial)
        (Recomputes.bind _ _ _ _ _ _ (mean_recomputes g hids m _ [] m hpursuit ?_)
          fun v _ => Recomputes.pure _ _ trivial) context hcontext store hstore
      · exact Nat.le_add_left _ _
      · exact Nat.le_add_left _ _
  | variance m types =>
      have hpursuit := Graph.Pursuit.start g m hq
      refine Reusable.answer g asked _ _ _ _
        (Related.bind _ _ _ _ (combinedVariance_transparent asked _ hkeeps g hids types _ m
          hasked) fun v => Related.pure _)
        (Recomputes.bind _ _ _ _ _ _ (combinedVariance_recomputes g hids m types _ [] m hpursuit ?_)
          fun v _ => Recomputes.pure _ _ trivial)
        (Recomputes.bind _ _ _ _ _ _ (combinedVariance_recomputes g hids m types _ [] m hpursuit ?_)
          fun v _ => Recomputes.pure _ _ trivial) context hcontext store hstore
      · exact Nat.le_add_left _ _
      · exact Nat.le_add_left _ _
  | digits m =>
      have hreads : ReadsPath (σ := σ) ((Question.digits m).ask g) :=
        ReadsPath.bind _ _ (minDigits_readsPath g _ m) fun digits => ReadsPath.pure _
      rcases hreads context (.fresh store) hcontext.follows.path_eq with ⟨houtcome, hsame⟩
      refine ⟨houtcome, rfl, ?_⟩
      rw [hsame]
      exact hcontext

/-- Questions leave a reusable context behind. -/
theorem after (hids : g.DistinctIds) (questions : List (Question α))
    (hquestions : ∀ q ∈ questions, q.subject ∈ g.measurements ∧
      ∀ tree symbol, g.Asks q.subject tree symbol → asked tree symbol) :
    ∀ context : Context σ α, Reusable g asked context →
      Reusable g asked (Evaluation.after g questions context) := by
  induction questions with
  | nil => exact fun _ hcontext => hcontext
  | cons q rest ih =>
      intro context hcontext
      rcases hquestions q List.mem_cons_self with ⟨hq, hasked⟩
      exact ih (fun other hother => hquestions other (List.mem_cons_of_mem _ hother)) _
        (Reusable.ask g asked hids q hq hasked context hcontext _ hcontext.store).2.2

end Reusable

/-- Whatever a context has been asked before, and whether or not that failed, a question
    is answered like in a fresh context, and like by the recursion that remembers no
    means. The path is empty again behind it. -/
theorem reuse (g : Graph α) (hids : (g.measurements.map Measurement.id).Nodup) (store : σ)
    (hstore : DerivativeStore.Answers
      (fun tree symbol => ∃ m ∈ g.measurements, g.Asks m tree symbol) store)
    (earlier : List (Question α)) (hearlier : ∀ q ∈ earlier, q.subject ∈ g.measurements)
    (q : Question α) (hq : q.subject ∈ g.measurements) :
    ((q.ask g).run (after g earlier (.fresh store))).1 = ((q.ask g).run (.fresh store)).1 ∧
      ((q.ask g).run (after g earlier (.fresh store))).1 =
        ((q.askAnew g).run (.fresh store)).1 ∧
      ((q.ask g).run (after g earlier (.fresh store))).2.path = [] := by
  have hasked : ∀ q : Question α, q.subject ∈ g.measurements → ∀ tree symbol,
      g.Asks q.subject tree symbol → ∃ m ∈ g.measurements, g.Asks m tree symbol :=
    fun q hq tree symbol h => ⟨q.subject, hq, h⟩
  have hreusable := Reusable.after g _ hids earlier
    (fun q hq => ⟨hearlier q hq, hasked q (hearlier q hq)⟩) _ (.fresh g _ store hstore)
  rcases Reusable.ask g _ hids q hq (hasked q hq) _ hreusable store hstore with
    ⟨hfresh, hanew, hnext⟩
  exact ⟨hfresh, hfresh.trans hanew, hnext.follows.path_eq⟩

/-- The graph of two formulas, each of which mentions the other. -/
def mutualFormulas : Graph Float := ⟨Propagator.eachOther, Bindings.empty⟩

/-- One of two measurements that mention each other is asked for its mean, which closes a
    cycle. The count of digits below the other one then reports its own cycle, as if
    nothing had been asked before. -/
theorem reuse_mutual :
    ((Question.ask mutualFormulas (.digits (.composite ⟨⟨2⟩, ⟨"b"⟩, ⟨"a + 1"⟩⟩))).run
        (after mutualFormulas [.mean (.composite ⟨⟨1⟩, ⟨"a"⟩, ⟨"2 * b"⟩⟩)]
          (.fresh (⟨⟩ : NoMemory Float)))).1 = .error (.cyclicReference ["b", "a", "b"]) ∧
      ((Question.ask mutualFormulas (.digits (.composite ⟨⟨2⟩, ⟨"b"⟩, ⟨"a + 1"⟩⟩))).run
        (after mutualFormulas [.mean (.composite ⟨⟨1⟩, ⟨"a"⟩, ⟨"2 * b"⟩⟩)]
          (.fresh (⟨⟩ : NoMemory Float)))).2.path = [] := by
  have hids : (mutualFormulas.measurements.map Measurement.id).Nodup :=
    (by decide : (Propagator.eachOther.map Measurement.id).Nodup)
  have hfirst : .composite ⟨⟨1⟩, ⟨"a"⟩, ⟨"2 * b"⟩⟩ ∈ mutualFormulas.measurements :=
    List.mem_cons_self
  have hsecond : .composite ⟨⟨2⟩, ⟨"b"⟩, ⟨"a + 1"⟩⟩ ∈ mutualFormulas.measurements :=
    List.mem_cons_of_mem _ List.mem_cons_self
  have hearlier : ∀ q ∈ [Question.mean (.composite ⟨⟨1⟩, ⟨"a"⟩, ⟨"2 * b"⟩⟩)],
      q.subject ∈ mutualFormulas.measurements := by
    intro q hq
    rw [List.mem_singleton.mp hq]
    exact hfirst
  have hreuse := reuse mutualFormulas hids (⟨⟩ : NoMemory Float)
    (DerivativeStore.answers_noMemory _ _) [.mean (.composite ⟨⟨1⟩, ⟨"a"⟩, ⟨"2 * b"⟩⟩)] hearlier
    (.digits (.composite ⟨⟨2⟩, ⟨"b"⟩, ⟨"a + 1"⟩⟩)) hsecond
  have hcount : ((minDigits mutualFormulas
      (mutualFormulas.depth (.composite ⟨⟨2⟩, ⟨"b"⟩, ⟨"a + 1"⟩⟩))
      (.composite ⟨⟨2⟩, ⟨"b"⟩, ⟨"a + 1"⟩⟩)).run (.fresh (⟨⟩ : NoMemory Float))).1 =
        .error (.cyclicReference ["b", "a", "b"]) :=
    Propagator.eq_error_of_reportedCycle? _ ["b", "a", "b"] (by decide +kernel)
  refine ⟨?_, hreuse.2.2⟩
  rw [hreuse.1, Question.ask, Outcome.run_bind]
  rcases hrun : (minDigits mutualFormulas
      (mutualFormulas.depth (.composite ⟨⟨2⟩, ⟨"b"⟩, ⟨"a + 1"⟩⟩))
      (.composite ⟨⟨2⟩, ⟨"b"⟩, ⟨"a + 1"⟩⟩)).run (.fresh (⟨⟩ : NoMemory Float)) with
    ⟨outcome, next⟩
  rw [hrun] at hcount
  simp only at hcount
  rw [hcount]

end Metrology.Evaluation
