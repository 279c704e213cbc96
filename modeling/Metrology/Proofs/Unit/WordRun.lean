import Metrology.Proofs.Outcome
import Metrology.Proofs.Unit.Measures

/-!
# Computing on words

Programs that compute on words of a fixed number of bits and keep a record of every
operation. The record holds what the result would be among the integers, so that it can be
told afterwards whether it fits, and what the operation does if it does not: a checked one
ends the run with a failure, a saturating one goes to the nearest end of the range, and a
plain one stops the run where it is, without a report.

An operation is settled if its result fits, or if it is not a plain one and the run ends with
a failure that reports it. A run accounts for an outcome if that is what it ends with, if all
its operations are settled, apart from those that are excused because they stopped it, and if
nothing else stopped it. Accounting is proved along the program: what is recorded in front of
a step is settled if the step succeeds, since then everything so far has fitted, and if it
fails, since then the run fails too.

## Main definitions

* `WordOp`, `WordOp.Fits`: An operation on words, and whether its result fits.
* `WordRun`: A run with its record.
* `WordRun.checked`, `WordRun.saturating`, `WordRun.plain`: The operations.
* `WordRun.Settled`: An operation that fits or is reported.
* `WordRun.Accounts`: What a run ends with, all its operations settled.

## Theorems

* `WordRun.Accounts.bind`, `WordRun.Accounts.foldlM`: Sequences of runs.
* `WordRun.Accounts.record`: A recorded operation in front of a run.
* `WordRun.Accounts.checked`, `WordRun.Accounts.plain`: The operations on their own.
-/

namespace Metrology

/-- What an operation on words does with a result that does not fit. -/
inductive WordOp.Kind where
  | checked
  | saturating
  | plain
  deriving DecidableEq, Repr

/-- An operation on words of some number of bits, with its result among the integers. -/
structure WordOp where
  bits : Nat
  exact : Int
  kind : WordOp.Kind
  deriving DecidableEq, Repr

/-- Whether the result is a word. -/
def WordOp.Fits (op : WordOp) : Prop :=
  -2 ^ (op.bits - 1) ≤ op.exact ∧ op.exact < 2 ^ (op.bits - 1)

instance (op : WordOp) : Decidable op.Fits := by
  unfold WordOp.Fits
  infer_instance

/-- What a run on words ends with, and the operations it made on the way. -/
structure WordRun (ε β : Type) where
  ops : List WordOp
  outcome : Except ε β

namespace WordRun

variable {ε β γ : Type}

/-- What follows a success adds its operations; a failure is the end. -/
def andThen (run : WordRun ε β) (next : β → WordRun ε γ) : WordRun ε γ :=
  match run.outcome with
  | .ok b => ⟨run.ops ++ (next b).ops, (next b).outcome⟩
  | .error e => ⟨run.ops, .error e⟩

instance : Monad (WordRun ε) where
  pure b := ⟨[], .ok b⟩
  bind := andThen

/-- A run that fails at once. -/
def fail (e : ε) : WordRun ε β := ⟨[], .error e⟩

/-- A run of one operation. -/
def record (op : WordOp) : WordRun ε PUnit := ⟨[op], .ok ⟨⟩⟩

/-- An operation that fails if its result does not fit. -/
def checked (bits : Nat) (exact : Int) (overflow : ε) : WordRun ε Int := do
  record ⟨bits, exact, .checked⟩
  if (WordOp.mk bits exact .checked).Fits then pure exact else fail overflow

/-- An operation whose result stays at the end of the range that it would leave. -/
def saturating (bits : Nat) (exact : Int) : WordRun ε Int := do
  record ⟨bits, exact, .saturating⟩
  pure (max (-2 ^ (bits - 1)) (min (2 ^ (bits - 1) - 1) exact))

/-- An operation that nothing checks. Where its result does not fit, the run stops. -/
def plain (bits : Nat) (exact : Int) (stop : ε) : WordRun ε Int := do
  record ⟨bits, exact, .plain⟩
  if (WordOp.mk bits exact .plain).Fits then pure exact else fail stop

theorem andThen_outcome (run : WordRun ε β) (next : β → WordRun ε γ) :
    (run >>= next).outcome = run.outcome >>= fun b => (next b).outcome := by
  change (andThen run next).outcome = _
  unfold andThen
  cases run.outcome <;> rfl

theorem mem_andThen (run : WordRun ε β) (next : β → WordRun ε γ) (op : WordOp) :
    op ∈ (run >>= next).ops ↔
      op ∈ run.ops ∨ ∃ b, run.outcome = .ok b ∧ op ∈ (next b).ops := by
  change op ∈ (andThen run next).ops ↔ _
  unfold andThen
  cases run.outcome <;> simp

end WordRun

/-- The failures by which an operation on units reports that a number is out of range. -/
def UnitError.IsReport {α : Type} (e : UnitError α) : Prop :=
  e.IsOverflow ∨ (∃ source, e = .invalidSyntax source) ∨
    ∃ unit exponent, e = .fractionalPower unit exponent

/-- A report is not a stop. -/
theorem UnitError.IsReport.ne_stopped {α : Type} (e : UnitError α) (h : e.IsReport) :
    e ≠ .stopped := by
  rintro rfl
  rcases h with ⟨overflow, h⟩ | ⟨source, h⟩ | ⟨unit, exponent, h⟩ <;> cases h

namespace WordRun

variable {α β γ : Type}

/-- An operation fits, or it is not a plain one and the outcome reports it. -/
def Settled (op : WordOp) (outcome : Except (UnitError α) β) : Prop :=
  op.Fits ∨ op.kind ≠ .plain ∧ ∃ e, outcome = .error e ∧ e.IsReport

/-- A run ends with an outcome, every operation on the way is settled unless it is excused
    and has stopped the run, and nothing else stops it. -/
structure Accounts (excused : WordOp → Prop) (run : WordRun (UnitError α) β)
    (outcome : Except (UnitError α) β) : Prop where
  outcome_eq : run.outcome = outcome
  settled : ∀ op ∈ run.ops, Settled op outcome ∨ excused op ∧ outcome = .error .stopped
  excused_of_stopped : outcome = .error .stopped → ∃ op ∈ run.ops, excused op

namespace Accounts

variable {excused : WordOp → Prop}

theorem pure (b : β) : Accounts excused (Pure.pure b : WordRun (UnitError α) β) (.ok b) :=
  ⟨rfl, fun _ h => absurd h List.not_mem_nil, nofun⟩

theorem fail (e : UnitError α) (he : e ≠ .stopped) :
    Accounts excused (fail e : WordRun (UnitError α) β) (.error e) :=
  ⟨rfl, fun _ h => absurd h List.not_mem_nil, fun h => absurd (Except.error.inj h) he⟩

/-- A sequence accounts for the sequence of outcomes. -/
theorem bind (run : WordRun (UnitError α) β) (outcome : Except (UnitError α) β)
    (next : β → WordRun (UnitError α) γ) (rest : β → Except (UnitError α) γ)
    (hrun : Accounts excused run outcome)
    (hnext : ∀ b, outcome = .ok b → Accounts excused (next b) (rest b)) :
    Accounts excused (run >>= next) (outcome >>= rest) := by
  constructor
  · rw [andThen_outcome, hrun.outcome_eq]
    exact (Outcome.bind_congr outcome outcome rest _ rfl fun b hb => (hnext b hb).outcome_eq)
  · intro op hop
    rw [mem_andThen, hrun.outcome_eq] at hop
    rcases hop with hop | ⟨b, hb, hop⟩
    · -- In front of a step: a failure there is the failure of the whole.
      rcases hrun.settled op hop with (hfits | ⟨hkind, e, he, hreport⟩) | ⟨hexcused, hstopped⟩
      · exact Or.inl (Or.inl hfits)
      · exact Or.inl (Or.inr ⟨hkind, e, by rw [he]; rfl, hreport⟩)
      · exact Or.inr ⟨hexcused, by rw [hstopped]; rfl⟩
    · rw [hb]
      exact (hnext b hb).settled op hop
  · intro hstopped
    rcases (Outcome.bind_eq_error outcome rest _).mp hstopped with hfirst | ⟨b, hb, hrest⟩
    · rcases hrun.excused_of_stopped hfirst with ⟨op, hop, hexcused⟩
      exact ⟨op, (mem_andThen run next op).mpr (Or.inl hop), hexcused⟩
    · rcases (hnext b hb).excused_of_stopped hrest with ⟨op, hop, hexcused⟩
      have hlater : ∃ b, run.outcome = .ok b ∧ op ∈ (next b).ops :=
        ⟨b, hrun.outcome_eq.trans hb, hop⟩
      exact ⟨op, (mem_andThen run next op).mpr (Or.inr hlater), hexcused⟩

/-- An operation in front of a run that settles it. -/
theorem record (op : WordOp) (run : WordRun (UnitError α) β) (outcome : Except (UnitError α) β)
    (hop : Settled op outcome) (hrun : Accounts excused run outcome) :
    Accounts excused (record op >>= fun _ => run) outcome := by
  constructor
  · rw [andThen_outcome]
    exact hrun.outcome_eq
  · intro other hother
    rw [mem_andThen] at hother
    rcases hother with hother | ⟨-, -, hother⟩
    · exact Or.inl (List.mem_singleton.mp hother ▸ hop)
    · exact hrun.settled other hother
  · intro hstopped
    rcases hrun.excused_of_stopped hstopped with ⟨other, hother, hexcused⟩
    exact ⟨other, (mem_andThen _ _ other).mpr (Or.inr ⟨⟨⟩, rfl, hother⟩), hexcused⟩

theorem checked (bits : Nat) (exact : Int) (overflow : UnitError α) (hreport : overflow.IsReport) :
    Accounts excused (checked bits exact overflow)
      (if (WordOp.mk bits exact .checked).Fits then .ok exact else .error overflow) := by
  refine record _ _ _ ?_ ?_
  · by_cases hfits : (WordOp.mk bits exact .checked).Fits
    · exact Or.inl hfits
    · exact Or.inr ⟨nofun, overflow, if_neg hfits, hreport⟩
  · split
    · exact pure exact
    · exact fail overflow hreport.ne_stopped

/-- A checked operation with a narrower check behind it is that check. -/
theorem checked_narrow (bits : Nat) (exact : Int) (overflow : UnitError α)
    (hreport : overflow.IsReport) (narrow : Int → Bool)
    (hnarrow : narrow exact = true → (WordOp.mk bits exact .checked).Fits)
    (next : Int → WordRun (UnitError α) β) (rest : Except (UnitError α) β)
    (hnext : (WordOp.mk bits exact .checked).Fits →
      Accounts excused (next exact) (if narrow exact then rest else .error overflow)) :
    Accounts excused (WordRun.checked bits exact overflow >>= next)
      (if narrow exact then rest else .error overflow) := by
  have hchecked : Accounts excused (WordRun.checked bits exact overflow) _ :=
    checked bits exact overflow hreport
  have hbind := hchecked.bind _ _ next (fun _ => if narrow exact then rest else .error overflow)
    (fun b hb => ?_)
  · have heq : ((if (WordOp.mk bits exact .checked).Fits then .ok exact else .error overflow :
        Except (UnitError α) Int) >>= fun _ => if narrow exact then rest else .error overflow) =
        if narrow exact then rest else .error overflow := by
      -- What the wide check refuses, the narrow one would have refused as well.
      by_cases hfits : (WordOp.mk bits exact .checked).Fits
      · rw [if_pos hfits]
        rfl
      · rw [if_neg hfits, if_neg (mt hnarrow hfits)]
        rfl
    exact heq ▸ hbind
  · split at hb
    · next hfits => exact Except.ok.inj hb ▸ hnext hfits
    · cases hb

/-- A plain operation, if its not fitting is excused. -/
theorem plain (bits : Nat) (exact : Int)
    (hexcused : (WordOp.mk bits exact .plain).Fits ∨ excused ⟨bits, exact, .plain⟩) :
    Accounts excused (plain bits exact .stopped : WordRun (UnitError α) Int)
      (if (WordOp.mk bits exact .plain).Fits then .ok exact else .error .stopped) := by
  by_cases hfits : (WordOp.mk bits exact .plain).Fits
  · unfold WordRun.plain
    rw [if_pos hfits, if_pos hfits]
    exact record _ _ _ (Or.inl hfits) (pure exact)
  · have hop := hexcused.resolve_left hfits
    unfold WordRun.plain
    rw [if_neg hfits, if_neg hfits]
    refine ⟨rfl, fun op h => Or.inr ⟨?_, rfl⟩, fun _ => ⟨_, List.mem_cons_self, hop⟩⟩
    exact List.mem_singleton.mp h ▸ hop

/-- A fold accounts for the fold of the outcomes. -/
theorem foldlM (run : β → γ → WordRun (UnitError α) β) (step : β → γ → Except (UnitError α) β)
    (xs : List γ) (hstep : ∀ b, ∀ x ∈ xs, Accounts excused (run b x) (step b x)) :
    ∀ b, Accounts excused (xs.foldlM run b) (xs.foldlM step b) := by
  induction xs with
  | nil => exact fun b => pure b
  | cons x rest ih =>
      intro b
      rw [List.foldlM_cons, List.foldlM_cons]
      exact bind _ _ _ _ (hstep b x List.mem_cons_self) fun next _ =>
        ih (fun b y hy => hstep b y (List.mem_cons_of_mem _ hy)) next

/-- Without excuses every operation is settled. -/
theorem settled_of_none (run : WordRun (UnitError α) β) (outcome : Except (UnitError α) β)
    (h : Accounts (fun _ => False) run outcome) : ∀ op ∈ run.ops, Settled op outcome :=
  fun op hop => (h.settled op hop).resolve_right fun hexcused => hexcused.1

/-- Without excuses the run does not stop. -/
theorem ne_stopped_of_none (run : WordRun (UnitError α) β) (outcome : Except (UnitError α) β)
    (h : Accounts (fun _ => False) run outcome) : outcome ≠ .error .stopped := by
  intro hstopped
  rcases h.excused_of_stopped hstopped with ⟨-, -, hexcused⟩
  exact hexcused

end Accounts

end WordRun

end Metrology
