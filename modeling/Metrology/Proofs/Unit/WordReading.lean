import Metrology.Proofs.Unit.Scan
import Metrology.Proofs.Unit.WordArithmetic

/-!
# Reading units on words

The reader of units as it computes on words, and what all its operations and those of units
come to. A written power is parsed as a word of 32 bits, and a text whose power is none is
refused. Behind a slash the power is turned without a check, and here nothing keeps it small:
the least word has no opposite, and turning it stops the run. Nothing else can go wrong: that
is the one operation that neither fits nor is reported, and the one thing that stops a run.

## Main definitions

* `WordRun.writtenPower`, `WordRun.scan`, `WordRun.read`: The reader.
* `WordRun.leastTurned`: The operation that turns the least word.
* `WordRun.Settles`: A run without unsettled operations that does not stop.

## Theorems

* `WordRun.turn_accounts`, `WordRun.scan_accounts`, `WordRun.read_accounts`: Reading.
* `WordRun.operations_settled`: All operations of units.
-/

namespace Metrology

open CompoundUnit (Tidy Known none inRange inWord liftDimension)

namespace WordRun

variable {excused : WordOp → Prop}

section Reading

variable {α : Type}

/-- How many characters the sign of a power takes. -/
def signLength (rest : List Char) : Nat :=
  if rest.head? = some '-' ∨ rest.head? = some '+' then 1 else 0

/-- The digits of a power. -/
def powerDigits (rest : List Char) : List Char :=
  (rest.drop (signLength rest)).takeWhile Char.isDigit

/-- The number that the digits of a power make with their sign. -/
def powerValue (rest : List Char) : Int :=
  if rest.head? = some '-' then -Decimal.digitsValue (powerDigits rest)
  else Decimal.digitsValue (powerDigits rest)

/-- The power behind a symbol and the number of characters it takes. -/
def writtenPower (source : String) : List Char → WordRun (UnitError α) (Int × Nat)
  | '^' :: rest =>
    if (powerDigits rest).isEmpty then fail (.invalidSyntax source)
    else do
      let power ← checked 32 (powerValue rest) (.invalidSyntax source)
      return (power, 1 + signLength rest + (powerDigits rest).length)
  | _ => pure (1, 0)

/-- The power that a slash in front of the symbol makes of the written one. It is turned
    without a check. -/
def turn (divide : Bool) (written : Int) : WordRun (UnitError α) Int :=
  if divide then plain 32 (-written) .stopped else pure written

/-- Merges the symbols of a text into a product. -/
def scan [Scalar α] (source : String) :
    (skip : Nat) → (divide : Bool) → CompoundUnit α → List Char →
      WordRun (UnitError α) (CompoundUnit α)
  | _, divide, unit, [] => if divide then fail (.invalidSyntax source) else pure unit
  | skip + 1, divide, unit, _ :: rest => scan source skip divide unit rest
  | 0, divide, unit, c :: rest =>
    if Text.isBlank c || c = '*' || c = '·' then scan source 0 divide unit rest
    else if c = '/' then
      if divide then fail (.invalidSyntax source) else scan source 0 true unit rest
    else if c = '1' ∧ rest.find? (fun c => !Text.isBlank c) = some '/' then
      scan source 0 divide unit rest
    else if UnitReader.startsSymbol c then
      let tail := rest.takeWhile UnitReader.continuesSymbol
      let symbol := String.ofList (c :: tail)
      match Catalog.lookup symbol with
      | .none => fail (.unknownUnit symbol)
      | some (dimension, scale) => do
        let (written, length) ← writtenPower source (rest.drop tail.length)
        let power ← turn divide written
        let unit ← push unit ⟨symbol, dimension, scale, power⟩
        scan source (tail.length + length) false unit rest
    else fail (.invalidSyntax source)

def read [Scalar α] (source : String) : WordRun (UnitError α) (CompoundUnit α) := do
  check (← scan source 0 false none source.toList)

/-- The least word turned, which is no word. -/
def leastTurned : WordOp := ⟨32, 2 ^ 31, .plain⟩

/-- A power that was read, or else invalid syntax. -/
def orInvalid (source : String) (written : Option (Int × Nat)) :
    Except (UnitError α) (Int × Nat) :=
  match written with
  | some power => .ok power
  | .none => .error (.invalidSyntax source)

theorem writtenPower?_caret (rest : List Char) :
    UnitReader.writtenPower? ('^' :: rest) =
      if (powerDigits rest).isEmpty || !inWord (powerValue rest) then Option.none
      else some (powerValue rest, 1 + signLength rest + (powerDigits rest).length) := rfl

theorem writtenPower_accounts (source : String) (cs : List Char) :
    Accounts (α := α) excused (writtenPower source cs)
      (orInvalid source (UnitReader.writtenPower? cs)) := by
  unfold writtenPower
  split
  · next rest =>
    rw [writtenPower?_caret]
    cases (powerDigits rest).isEmpty with
    | true => exact .fail _ nofun
    | false =>
        have hnarrow : Accounts excused (checked 32 (powerValue rest) _ >>= _) _ :=
          .checked_narrow 32 (powerValue rest) (.invalidSyntax source : UnitError α)
            (Or.inr (Or.inl ⟨source, rfl⟩)) inWord (WordOp.fits_word _ _).mpr
            (fun power => pure (power, 1 + signLength rest + (powerDigits rest).length))
            (.ok (powerValue rest, 1 + signLength rest + (powerDigits rest).length)) fun hfits => by
              rw [if_pos ((WordOp.fits_word _ _).mp hfits)]
              exact .pure _
        revert hnarrow
        cases inWord (powerValue rest) <;> exact fun h => h
  · next hother =>
    rw [UnitReader.writtenPower?_other cs hother]
    exact .pure _

/-- A power that was read is a word. -/
theorem inWord_of_writtenPower? (cs : List Char) (written : Int) (length : Nat)
    (h : UnitReader.writtenPower? cs = some (written, length)) : inWord written = true := by
  by_cases hcaret : ∃ rest, cs = '^' :: rest
  · rcases hcaret with ⟨rest, rfl⟩
    rw [writtenPower?_caret] at h
    split at h
    · cases h
    · next hword =>
      rw [Option.some.injEq, Prod.mk.injEq] at h
      rw [Bool.or_eq_true, not_or, Bool.not_eq_true', Bool.not_eq_false] at hword
      exact h.1 ▸ hword.2
  · rw [UnitReader.writtenPower?_other cs (not_exists.mp hcaret), Option.some.injEq, Prod.mk.injEq] at h
    rw [← h.1]
    decide

/-- Turning a written power. The least word has no opposite, and there the run stops. -/
theorem turn_accounts (divide : Bool) (written : Int) (hwritten : inWord written = true) :
    Accounts (α := α) (· = leastTurned) (turn divide written)
      (UnitReader.effectivePower divide written) := by
  cases divide with
  | false => exact .pure written
  | true =>
      have hexcused : (WordOp.mk 32 (-written) .plain).Fits ∨
          (WordOp.mk 32 (-written) .plain) = leastTurned := by
        by_cases hleast : written = -2 ^ 31
        · exact Or.inr (by rw [hleast]; rfl)
        · exact Or.inl (by grind)
      have hturned : Accounts (α := α) (· = leastTurned) (plain 32 (-written) .stopped) _ :=
        .plain 32 (-written) hexcused
      simp only [WordOp.fits_word] at hturned
      exact hturned

/-- A symbol with its power is merged, and the scan goes on behind it. -/
theorem symbol_accounts (source : String) (divide : Bool) (unit : CompoundUnit α)
    (symbol : String) (meaning : Dimension × α) (behind : List Char)
    (next : Nat → CompoundUnit α → WordRun (UnitError α) (CompoundUnit α))
    (rest : Nat → CompoundUnit α → Except (UnitError α) (CompoundUnit α))
    (hnext : ∀ length merged, Accounts (· = leastTurned) (next length merged) (rest length merged)) :
    Accounts (· = leastTurned)
      (do
        let (written, length) ← writtenPower source behind
        let power ← turn divide written
        next length (← push unit ⟨symbol, meaning.1, meaning.2, power⟩))
      (match UnitReader.writtenPower? behind with
        | .none => .error (.invalidSyntax source)
        | some (written, length) => do
          let power ← UnitReader.effectivePower divide written
          rest length (← unit.push ⟨symbol, meaning.1, meaning.2, power⟩)) := by
  have hpower : Accounts (α := α) (· = leastTurned) (writtenPower source behind) _ :=
    writtenPower_accounts source behind
  cases hwritten : UnitReader.writtenPower? behind with
  | none =>
      rw [hwritten] at hpower
      exact .bind _ _ _ (fun _ => .error (.invalidSyntax source)) hpower nofun
  | some power =>
      rw [hwritten] at hpower
      have hword := inWord_of_writtenPower? behind power.1 power.2 hwritten
      refine Accounts.bind _ _ (fun (power : Int × Nat) => do
        let turned ← turn divide power.1
        next power.2 (← push unit ⟨symbol, meaning.1, meaning.2, turned⟩)) (fun _ => _) hpower
        fun b hb => ?_
      cases hb
      exact .bind _ _ _ _ (turn_accounts divide power.1 hword) fun turned _ =>
        .bind _ _ _ _ (push_accounts unit _) fun merged _ => hnext power.2 merged

/-- Scanning a text accounts for it, if turning the least word is excused. -/
theorem scan_accounts [Scalar α] (source : String) (cs : List Char) :
    ∀ (skip : Nat) (divide : Bool) (unit : CompoundUnit α),
      Accounts (· = leastTurned) (scan source skip divide unit cs)
        (UnitReader.scan source skip divide unit cs) := by
  induction cs with
  | nil =>
      intro skip divide unit
      rw [scan, UnitReader.scan]
      split
      · exact .fail _ (by simp)
      · exact .pure _
  | cons c rest ih =>
      intro skip divide unit
      cases skip with
      | succ skip => exact ih skip divide unit
      | zero =>
          rw [scan, UnitReader.scan]
          split
          · exact ih 0 divide unit
          · split
            · split
              · exact .fail _ (by simp)
              · exact ih 0 true unit
            · split
              · exact ih 0 divide unit
              · split
                · simp only
                  cases hlookup : Catalog.lookup (α := α)
                      (String.ofList (c :: rest.takeWhile UnitReader.continuesSymbol)) with
                  | none => exact .fail _ (by simp)
                  | some meaning =>
                      exact symbol_accounts source divide unit _ meaning _
                        (fun length merged => scan source (_ + length) false merged rest)
                        (fun length merged => UnitReader.scan source (_ + length) false merged rest)
                        fun length merged => ih _ false merged
                · exact .fail _ (by simp)

theorem read_accounts [Scalar α] (source : String) :
    Accounts (· = leastTurned) (read source : WordRun (UnitError α) _) (CompoundUnit.read source) :=
  .bind _ _ _ _ (scan_accounts source source.toList 0 false none) fun unit _ => check_accounts unit

end Reading

/-- A run ends with an outcome, every operation on the way is settled, and nothing stops it. -/
def Settles {α β : Type} (run : WordRun (UnitError α) β) (outcome : Except (UnitError α) β) : Prop :=
  run.outcome = outcome ∧ (∀ op ∈ run.ops, Settled op outcome) ∧ outcome ≠ .error .stopped

theorem Accounts.settles {α β : Type} (run : WordRun (UnitError α) β)
    (outcome : Except (UnitError α) β) (h : Accounts (fun _ => False) run outcome) :
    Settles run outcome :=
  ⟨h.outcome_eq, h.settled_of_none, h.ne_stopped_of_none⟩

/-- The least word turned is not settled by any outcome. -/
theorem not_settled_leastTurned {α β : Type} (outcome : Except (UnitError α) β) :
    ¬Settled leastTurned outcome := by
  rintro (hfits | ⟨hkind, -⟩)
  · exact absurd hfits (by decide)
  · exact hkind rfl

/-- Reading a text on words gives what reading it gives. Of all operations on the way, those
    that turn the least word are the only ones that neither fit nor are reported, and the run
    stops exactly where there is one. Products, quotients, integer and real powers of derived
    units, and the operations on dimensions, have no such operation and do not stop. -/
theorem operations_settled (source : String) (unit other : CompoundUnit Float)
    (hunit : unit.Derived) (hother : other.Derived) (factor : UnitFactor Float) (n : Int)
    (exponent : Float) (a b : Dimension) :
    ((read source : WordRun (UnitError Float) _).outcome = CompoundUnit.read source ∧
      (∀ op ∈ (read source : WordRun (UnitError Float) _).ops,
        Settled op (CompoundUnit.read source : Except (UnitError Float) _) ↔ op ≠ leastTurned) ∧
      (leastTurned ∈ (read source : WordRun (UnitError Float) _).ops ↔
        (CompoundUnit.read source : Except (UnitError Float) _) = .error .stopped)) ∧
    (Settles (dimension unit) unit.dimension ∧ Settles (push unit factor) (unit.push factor) ∧
      Settles (mul unit other) (unit.mul other) ∧ Settles (div unit other) (unit.div other) ∧
      Settles (powInt unit n) (unit.powInt n) ∧
      Settles (powReal unit exponent) (unit.powReal exponent)) ∧
    Settles (dimensionMul a b) (liftDimension (a.mul b) : Except (UnitError Float) _) ∧
      Settles (dimensionDiv a b) (liftDimension (a.div b) : Except (UnitError Float) _) ∧
      Settles (dimensionPow a n) (liftDimension (a.pow n) : Except (UnitError Float) _) := by
  have haccounts : Accounts (α := Float) (· = leastTurned) (read source) _ := read_accounts source
  refine ⟨⟨haccounts.outcome_eq, fun op hop => ⟨?_, fun hdifferent => ?_⟩, fun hop => ?_,
    fun hstopped => ?_⟩, ?_, ?_⟩
  · rintro hsettled rfl
    exact not_settled_leastTurned _ hsettled
  · exact (haccounts.settled op hop).resolve_right fun hexcused => hdifferent hexcused.1
  · exact ((haccounts.settled leastTurned hop).resolve_left (not_settled_leastTurned _)).2
  · rcases haccounts.excused_of_stopped hstopped with ⟨op, hop, rfl⟩
    exact hop
  · -- A quotient turns powers as the reader does, but those of a unit are small.
    have hsmall := hother.wellFormed.tidy.bounded
    exact ⟨(dimension_accounts unit).settles, (push_accounts unit factor).settles,
      (mul_accounts unit other).settles, (div_accounts unit other hsmall).settles,
      (powInt_accounts unit n).settles,
      (powReal_accounts unit exponent hunit.wellFormed.tidy).settles⟩
  · exact ⟨(dimensionMul_accounts a b).settles, (dimensionDiv_accounts a b).settles,
      (dimensionPow_accounts a n).settles⟩

/-- Dividing by a symbol with the least word as its power turns that word and stops. Raising a
    unit to a huge power is reported instead. -/
theorem operations_settled_leastWord :
    leastTurned ∈ (read "1/m^-2147483648" : WordRun (UnitError Float) _).ops ∧
    ¬Settled leastTurned (CompoundUnit.read "1/m^-2147483648" : Except (UnitError Float) _) ∧
    (CompoundUnit.read "1/m^-2147483648" : Except (UnitError Float) _) = .error .stopped ∧
    ∃ unit : CompoundUnit Float, CompoundUnit.read "m^100" = .ok unit ∧
      Settles (powInt unit 2147483647) (unit.powInt 2147483647) ∧
      (powInt unit 2147483647).ops = [⟨32, 214748364700, .checked⟩] := by
  have hmem : leastTurned ∈ (read "1/m^-2147483648" : WordRun (UnitError Float) _).ops := by
    decide +kernel
  have hops : ((CompoundUnit.read "m^100" : Except (UnitError Float) _).toOption.map fun unit =>
      (powInt unit 2147483647).ops) = some [⟨32, 214748364700, .checked⟩] := by decide +kernel
  cases hread : (CompoundUnit.read "m^100" : Except (UnitError Float) _) with
  | error e =>
      rw [hread] at hops
      cases hops
  | ok unit =>
      rw [hread] at hops
      have hunit : unit.Derived := .read _ unit hread
      rcases operations_settled "1/m^-2147483648" unit unit hunit hunit ⟨"m", {}, 1, 1⟩ 2147483647 1
        {} {} with ⟨⟨-, hsettled, hstops⟩, ⟨-, -, -, -, hpower, -⟩, -⟩
      exact ⟨hmem, fun h => (hsettled _ hmem).mp h rfl, hstops.mp hmem, unit, rfl, hpower,
        Option.some.inj hops⟩

end WordRun

end Metrology
