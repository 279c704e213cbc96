import Metrology.Proofs.Unit.Derived
import Metrology.Proofs.Unit.WordRun

/-!
# Units on words

The operations on dimensions and units as they are made with words: exponents of eight bits,
powers of 32. Additions and multiplications are checked. Turning a power for a quotient is
not, and a real power is narrowed from a double to the nearest word. So it takes an argument
that both are harmless: the powers of a unit are small, so turning one gives a word, and a
power that is changed by the narrowing is one of the two extremes, which the next step
refuses.

Each run accounts for the outcome that the operation has among the integers. In particular it
ends with that outcome.

## Main definitions

* `WordRun.dimensionMul`, `WordRun.dimensionDiv`, `WordRun.dimensionPow`: Dimensions.
* `WordRun.push`, `WordRun.dimension`, `WordRun.mul`, `WordRun.div`, `WordRun.powInt`: Units.
* `WordRun.integral?`, `WordRun.powReal`: Real powers on doubles.

## Theorems

* `WordRun.perExponent_check`: Checking the exponents in turn.
* `WordRun.push_accounts`, `WordRun.dimension_accounts`, `WordRun.mul_accounts`,
  `WordRun.div_accounts`, `WordRun.powInt_accounts`, `WordRun.powReal_accounts`: The runs.
* `WordRun.push_extreme`: The extreme words are refused as powers.
-/

namespace Metrology

open CompoundUnit (Tidy Known none inRange inWord ofFactors liftDimension)

/-- Eight bits are those of an exponent. -/
@[simp, grind =]
theorem WordOp.fits_byte (n : Int) (kind : WordOp.Kind) :
    (WordOp.mk 8 n kind).Fits ↔ Dimension.inRange n = true := by
  rw [Dimension.inRange_iff]
  change (-2 ^ 7 ≤ n ∧ n < 2 ^ 7) ↔ _
  omega

@[simp, grind =]
theorem WordOp.fits_word (n : Int) (kind : WordOp.Kind) :
    (WordOp.mk 32 n kind).Fits ↔ inWord n = true :=
  (CompoundUnit.inWord_iff n).symm

/-- The integer part of a double. An infinite one counts as the first power of two beyond the
    finite ones. -/
def Double.whole (x : Float) : Int :=
  match Binary64.ofFloat x with
  | .nan => 0
  | .infinite negative => if negative then -2 ^ 1024 else 2 ^ 1024
  | .finite negative significand exponent =>
    let magnitude : Int := significand * 2 ^ exponent.toNat / 2 ^ (-exponent).toNat
    if negative then -magnitude else magnitude

/-- Narrowing a double is moving its integer part into the range. -/
theorem Double.toInt_eq_clamp (x : Float) :
    toInt (-2147483648) 2147483647 x = max (-2 ^ 31) (min (2 ^ 31 - 1) (whole x)) := by
  unfold toInt whole
  cases Binary64.ofFloat x with
  | nan => rfl
  | infinite negative => cases negative <;> decide +kernel
  | finite negative significand exponent => rfl

namespace WordRun

variable {α : Type} {excused : WordOp → Prop}

section Dimensions

/-- An operation on each of the seven exponents in turn. -/
def perExponent {m : Type → Type} [Monad m] (step : Int → Int → m Int) (a b : Dimension) :
    m Dimension := do
  let mass ← step a.mass b.mass
  let length ← step a.length b.length
  let time ← step a.time b.time
  let current ← step a.current b.current
  let temperature ← step a.temperature b.temperature
  let amount ← step a.amount b.amount
  let luminosity ← step a.luminosity b.luminosity
  return { mass, length, time, current, temperature, amount, luminosity }

def dimensionMul (a b : Dimension) : WordRun (UnitError α) Dimension :=
  perExponent (fun x y => checked 8 (x + y) (.powerOverflow (.dimension (.product a b)))) a b

def dimensionDiv (a b : Dimension) : WordRun (UnitError α) Dimension :=
  perExponent (fun x y => checked 8 (x - y) (.powerOverflow (.dimension (.quotient a b)))) a b

/-- The product is made with 32 bits and then narrowed to eight. -/
def dimensionPow (d : Dimension) (n : Int) : WordRun (UnitError α) Dimension :=
  let overflow : UnitError α := .powerOverflow (.dimension (.power d n))
  perExponent (fun x _ => do checked 8 (← checked 32 (x * n) overflow) overflow) d d

/-- A number that is an exponent, or else a failure. -/
def exponent? (overflow : UnitError α) (n : Int) : Except (UnitError α) Int :=
  if Dimension.inRange n then .ok n else .error overflow

/-- Checking the exponents in turn is checking all of them. -/
theorem perExponent_check (f : Int → Int → Int) (overflow : DimensionOverflow) (a b : Dimension) :
    perExponent (fun x y => exponent? (.powerOverflow (.dimension overflow)) (f x y)) a b =
      (liftDimension (Dimension.check overflow (Dimension.zipWith f a b)) :
        Except (UnitError α) Dimension) := by
  have hall : (Dimension.zipWith f a b).exponents.all Dimension.inRange =
      (Dimension.inRange (f a.mass b.mass) && Dimension.inRange (f a.length b.length) &&
        Dimension.inRange (f a.time b.time) && Dimension.inRange (f a.current b.current) &&
        Dimension.inRange (f a.temperature b.temperature) &&
        Dimension.inRange (f a.amount b.amount) &&
        Dimension.inRange (f a.luminosity b.luminosity)) := by
    simp only [Dimension.exponents, Dimension.zipWith, List.all_cons, List.all_nil, Bool.and_true,
      Bool.and_assoc]
  rw [Dimension.check, hall]
  simp only [perExponent, exponent?]
  -- The first exponent out of range ends the run, whatever the others are.
  cases Dimension.inRange (f a.mass b.mass) <;> try rfl
  cases Dimension.inRange (f a.length b.length) <;> try rfl
  cases Dimension.inRange (f a.time b.time) <;> try rfl
  cases Dimension.inRange (f a.current b.current) <;> try rfl
  cases Dimension.inRange (f a.temperature b.temperature) <;> try rfl
  cases Dimension.inRange (f a.amount b.amount) <;> try rfl
  cases Dimension.inRange (f a.luminosity b.luminosity) <;> rfl

theorem perExponent_accounts (step : Int → Int → WordRun (UnitError α) Int)
    (outcome : Int → Int → Except (UnitError α) Int)
    (hstep : ∀ x y, Accounts excused (step x y) (outcome x y)) (a b : Dimension) :
    Accounts excused (perExponent step a b) (perExponent outcome a b) :=
  .bind _ _ _ _ (hstep _ _) fun _ _ => .bind _ _ _ _ (hstep _ _) fun _ _ =>
    .bind _ _ _ _ (hstep _ _) fun _ _ => .bind _ _ _ _ (hstep _ _) fun _ _ =>
    .bind _ _ _ _ (hstep _ _) fun _ _ => .bind _ _ _ _ (hstep _ _) fun _ _ =>
    .bind _ _ _ _ (hstep _ _) fun _ _ => .pure _

theorem checked_byte (n : Int) (overflow : UnitError α) (hreport : overflow.IsReport) :
    Accounts excused (checked 8 n overflow) (exponent? overflow n) := by
  have h : Accounts excused (checked 8 n overflow) _ := .checked 8 n overflow hreport
  simp only [WordOp.fits_byte] at h
  exact h

theorem isReport_dimension (overflow : DimensionOverflow) :
    (.powerOverflow (.dimension overflow) : UnitError α).IsReport := Or.inl ⟨_, rfl⟩

theorem dimensionMul_accounts (a b : Dimension) :
    Accounts excused (dimensionMul a b) (liftDimension (a.mul b) : Except (UnitError α) _) := by
  rw [Dimension.mul, ← perExponent_check]
  exact perExponent_accounts _ _ (fun x y => checked_byte _ _ (isReport_dimension _)) a b

theorem dimensionDiv_accounts (a b : Dimension) :
    Accounts excused (dimensionDiv a b) (liftDimension (a.div b) : Except (UnitError α) _) := by
  rw [Dimension.div, ← perExponent_check]
  exact perExponent_accounts _ _ (fun x y => checked_byte _ _ (isReport_dimension _)) a b

theorem dimensionPow_accounts (d : Dimension) (n : Int) :
    Accounts excused (dimensionPow d n) (liftDimension (d.pow n) : Except (UnitError α) _) := by
  rw [Dimension.pow, Dimension.map, ← perExponent_check, dimensionPow]
  refine perExponent_accounts _ _ (fun x _ => ?_) d d
  refine Accounts.checked_narrow 32 _ _ (isReport_dimension _) Dimension.inRange (fun h => ?_) _ _
    (fun _ => checked_byte _ _ (isReport_dimension _))
  grind

end Dimensions

section Units

/-- The dimension of a unit. -/
def dimension (unit : CompoundUnit α) : WordRun (UnitError α) Dimension :=
  unit.factors.foldlM (fun product factor => do
    dimensionMul product (← dimensionPow factor.dimension factor.power)) Dimension.one

/-- Passes a unit on if its dimension is in range. -/
def check (unit : CompoundUnit α) : WordRun (UnitError α) (CompoundUnit α) := do
  let _ ← dimension unit
  return unit

/-- Replaces the power of the first factor with the given symbol. -/
def setPower (symbol : String) (power : Int) : List (UnitFactor α) → List (UnitFactor α)
  | [] => []
  | factor :: rest =>
    if factor.symbol = symbol then { factor with power } :: rest
    else factor :: setPower symbol power rest

/-- Merges a factor into a product. The sum of the powers is made before it is compared with
    the range of powers. -/
def push (unit : CompoundUnit α) (factor : UnitFactor α) :
    WordRun (UnitError α) (CompoundUnit α) :=
  match unit.factors.find? fun earlier => earlier.symbol = factor.symbol with
  | some earlier => do
    let overflow : UnitError α :=
      .powerOverflow (.merged factor.symbol earlier.power factor.power)
    let power ← checked 32 (earlier.power + factor.power) overflow
    if inRange power then pure (ofFactors (setPower factor.symbol power unit.factors))
    else fail overflow
  | .none =>
    if inRange factor.power then pure (ofFactors (unit.factors ++ [factor]))
    else fail (.powerOverflow (.single factor.symbol factor.power))

def mul (unit other : CompoundUnit α) : WordRun (UnitError α) (CompoundUnit α) := do
  check (← other.factors.foldlM push unit)

/-- A quotient. The powers are turned without a check. -/
def div (unit other : CompoundUnit α) : WordRun (UnitError α) (CompoundUnit α) := do
  let result ← other.factors.foldlM (fun product factor => do
    push product { factor with power := ← plain 32 (-factor.power) .stopped }) unit
  check result

def powInt (unit : CompoundUnit α) (n : Int) : WordRun (UnitError α) (CompoundUnit α) := do
  let result ← unit.factors.foldlM (fun product factor => do
    let overflow : UnitError α := .powerOverflow (.multiplied factor.symbol factor.power n)
    push product { factor with power := ← checked 32 (factor.power * n) overflow }) none
  check result

theorem setPower_eq_addPower (symbol : String) (power : Int) (factors : List (UnitFactor α))
    (earlier : UnitFactor α)
    (h : factors.find? (fun factor => factor.symbol = symbol) = some earlier) :
    setPower symbol (earlier.power + power) factors = CompoundUnit.addPower symbol power factors := by
  induction factors with
  | nil => cases h
  | cons factor rest ih =>
      rw [setPower, CompoundUnit.addPower]
      by_cases hsame : factor.symbol = symbol
      · rw [List.find?_cons_of_pos (by simp [hsame]), Option.some.injEq] at h
        rw [if_pos hsame, if_pos hsame, h]
      · rw [List.find?_cons_of_neg (by simp [hsame])] at h
        rw [if_neg hsame, if_neg hsame, ih h]

theorem inWord_of_inRange (power : Int) (h : inRange power = true) : inWord power = true := by
  grind

theorem push_accounts (unit : CompoundUnit α) (factor : UnitFactor α) :
    Accounts excused (push unit factor) (unit.push factor) := by
  unfold push CompoundUnit.push
  cases hfind : unit.factors.find? (fun earlier => earlier.symbol = factor.symbol) with
  | some earlier =>
      -- The narrower range decides, since a sum in it fits into a word.
      simp only
      refine Accounts.checked_narrow 32 _ _ (Or.inl ⟨_, rfl⟩) inRange
        (fun h => (WordOp.fits_word _ _).mpr (inWord_of_inRange _ h)) _ _ fun _ => ?_
      split
      · rw [setPower_eq_addPower _ _ _ earlier hfind]
        exact .pure _
      · exact .fail _ nofun
  | none =>
      simp only
      split
      · exact .pure _
      · exact .fail _ nofun

theorem liftDimension_bind {β γ : Type} (x : Except DimensionOverflow β)
    (f : β → Except DimensionOverflow γ) :
    (liftDimension (x >>= f) : Except (UnitError α) γ) =
      liftDimension x >>= fun b => liftDimension (f b) := by
  cases x <;> rfl

theorem liftDimension_foldlM (factors : List (UnitFactor α)) :
    ∀ product : Dimension,
      (liftDimension (factors.foldlM CompoundUnit.multiplyDimension product) :
        Except (UnitError α) Dimension) =
      factors.foldlM (fun product factor =>
        liftDimension (CompoundUnit.multiplyDimension product factor)) product := by
  induction factors with
  | nil => exact fun product => rfl
  | cons factor rest ih =>
      intro product
      rw [List.foldlM_cons, List.foldlM_cons, liftDimension_bind]
      exact congrArg _ (funext ih)

theorem dimension_accounts (unit : CompoundUnit α) :
    Accounts excused (dimension unit) unit.dimension := by
  have hdimension : unit.dimension =
      liftDimension (unit.factors.foldlM CompoundUnit.multiplyDimension Dimension.one) := rfl
  rw [hdimension, liftDimension_foldlM]
  refine Accounts.foldlM _ _ _ (fun product factor _ => ?_) _
  rw [CompoundUnit.multiplyDimension, liftDimension_bind]
  exact .bind _ _ _ _ (dimensionPow_accounts _ _) fun _ _ => dimensionMul_accounts _ _

theorem check_accounts (unit : CompoundUnit α) : Accounts excused (check unit) unit.check :=
  .bind _ _ _ _ (dimension_accounts unit) fun _ _ => .pure _

theorem mul_accounts (unit other : CompoundUnit α) :
    Accounts excused (mul unit other) (unit.mul other) :=
  .bind _ _ _ _ (Accounts.foldlM _ _ _ (fun product factor _ => push_accounts product factor) _)
    fun product _ => check_accounts product

/-- The powers of a unit are small, so their opposites are words. -/
theorem div_accounts (unit other : CompoundUnit α)
    (hsmall : ∀ factor ∈ other.factors, -128 ≤ factor.power ∧ factor.power ≤ 127) :
    Accounts excused (div unit other) (unit.div other) := by
  rw [CompoundUnit.div, CompoundUnit.pushAll, List.foldlM_map]
  refine .bind _ _ _ _ (Accounts.foldlM _ _ _ (fun product factor hmem => ?_) _)
    fun product _ => check_accounts product
  have hbounds := hsmall factor hmem
  have hfits : (WordOp.mk 32 (-factor.power) .plain).Fits := by grind
  have hturned : Accounts (α := α) excused (plain 32 (-factor.power) .stopped) (.ok _) :=
    if_pos hfits ▸ Accounts.plain 32 (-factor.power) (Or.inl hfits)
  exact .bind _ _ _ (fun power => product.push { factor with power }) hturned
    fun power _ => push_accounts product _

theorem powInt_accounts (unit : CompoundUnit α) (n : Int) :
    Accounts excused (powInt unit n) (unit.powInt n) := by
  refine .bind _ _ _ _ (Accounts.foldlM _ _ _ (fun product factor _ => ?_) _)
    fun product _ => check_accounts product
  -- The outcome raises a factor and merges it, while the run only makes its power first.
  have hchecked : Accounts (α := α) excused (checked 32 (factor.power * n) _) _ :=
    .checked 32 _ (.powerOverflow (.multiplied factor.symbol factor.power n)) (Or.inl ⟨_, rfl⟩)
  have hmultiplied := hchecked.bind _ _ _ (fun power => product.push { factor with power })
    fun power _ => push_accounts product { factor with power }
  have heq : ∀ overflow : UnitError α,
      ((if (WordOp.mk 32 (factor.power * n) .checked).Fits then .ok (factor.power * n)
        else .error overflow : Except (UnitError α) Int) >>= fun power =>
          product.push { factor with power }) =
      ((if inWord (factor.power * n) then .ok { factor with power := factor.power * n }
        else .error overflow : Except (UnitError α) (UnitFactor α)) >>= product.push) := by
    intro overflow
    simp only [WordOp.fits_word]
    split <;> rfl
  rw [heq] at hmultiplied
  exact hmultiplied

end Units

/-- The least and the greatest word are no powers. -/
theorem push_extreme {α : Type} [Scalar α] (unit : CompoundUnit α) (factor : UnitFactor α)
    (hunit : Tidy unit.factors) (h : factor.power = -2 ^ 31 ∨ factor.power = 2 ^ 31 - 1) :
    ∃ e, unit.push factor = .error e ∧ e.IsOverflow := by
  cases hpush : unit.push factor with
  | error e => exact ⟨e, rfl, CompoundUnit.push_eq_error unit factor e hpush⟩
  | ok result =>
      -- With a power of the unit or without one, the sum is far out of range.
      have hsmall := CompoundUnit.push_small unit result factor hunit hpush
      omega

section RealPowers

/-- The integer that a double stands for, narrowed to a word. -/
def integral? {ε : Type} (x : Float) : WordRun ε (Option Int) :=
  if !x.isFinite || (x - Double.round x).abs > 1e-9 then pure .none
  else do return some (← saturating 32 (Double.whole (Double.round x)))

/-- Raises the factors one by one and merges them into a product. -/
def powFactors (exponent : Float) : CompoundUnit Float → List (UnitFactor Float) →
    WordRun (UnitError Float) (Option (CompoundUnit Float))
  | product, [] => pure (some product)
  | product, factor :: rest => do
    match ← integral? (Arithmetic.ofInt factor.power * exponent) with
    | .none => pure .none
    | some power => powFactors exponent (← push product { factor with power }) rest

/-- The exponents of a dimension raised to a real power, narrowed to eight bits. -/
def scaledExponents (overflow : UnitError Float) (exponent : Float) :
    List Int → WordRun (UnitError Float) (Option (List Int))
  | [] => pure (some [])
  | power :: rest => do
    match ← integral? (Arithmetic.ofInt power * exponent) with
    | .none => pure .none
    | some scaled =>
      let first ← checked 8 scaled overflow
      return (← scaledExponents overflow exponent rest).map (first :: ·)

/-- A real power. -/
def powReal (unit : CompoundUnit Float) (exponent : Float) :
    WordRun (UnitError Float) (CompoundUnit Float) := do
  match ← powFactors exponent none unit.factors with
  | some product => check product
  | .none =>
    let overflow : UnitError Float := .powerOverflow (.real unit exponent)
    let exponents ← scaledExponents overflow exponent (← dimension unit).exponents
    match exponents.bind CompoundUnit.dimensionOf? with
    | some d => pure (CompoundUnit.si d)
    | .none => fail (.fractionalPower unit exponent)

/-- What is recorded for a double that stands for an integer: its narrowing, which changes
    nothing or ends at one of the extremes. -/
theorem integral?_cases {ε : Type} (x : Float) :
    (Double.integral? x = Option.none ∧ (integral? x : WordRun ε _) = pure .none) ∨
      ∃ n op, Double.integral? x = some n ∧
        (integral? x : WordRun ε _) = record op >>= (fun _ => pure (some n)) ∧
        op.kind ≠ .plain ∧ (op.Fits ∨ n = -2 ^ 31 ∨ n = 2 ^ 31 - 1) := by
  unfold Double.integral? integral?
  split
  · exact Or.inl ⟨rfl, rfl⟩
  · refine Or.inr ⟨_, ⟨32, Double.whole (Double.round x), .saturating⟩, rfl, ?_, nofun, ?_⟩
    · rw [Double.toInt_eq_clamp]
      rfl
    · rw [Double.toInt_eq_clamp]
      unfold WordOp.Fits
      simp only
      omega

/-- Raising factors accounts for it. A narrowing that changes a power is followed by a merge
    that is refused. -/
theorem powFactors_accounts (exponent : Float) (factors : List (UnitFactor Float))
    (hknown : ∀ factor ∈ factors, Known factor) :
    ∀ product : CompoundUnit Float, Tidy product.factors →
      Accounts excused (powFactors exponent product factors)
        (CompoundUnit.powFactors? exponent product factors) := by
  induction factors with
  | nil => exact fun product _ => .pure _
  | cons factor rest ih =>
      intro product hproduct
      rw [powFactors, CompoundUnit.powFactors?]
      have hscaled : CompoundUnit.scaledPower? factor.power exponent =
          Double.integral? (Arithmetic.ofInt factor.power * exponent) := rfl
      rw [hscaled]
      rcases integral?_cases (ε := UnitError Float) (Arithmetic.ofInt factor.power * exponent) with
        ⟨hnone, hrun⟩ | ⟨n, op, hsome, hrun, hkind, hop⟩
      · rw [hnone, hrun]
        exact .pure _
      · rw [hsome, hrun]
        refine Accounts.record op _ _ ?_ (.bind _ _ _ _ (push_accounts product _) fun next hnext => ?_)
        · -- The narrowing is not reported where it happens, so its report is the merge's.
          rcases hop with hfits | hextreme
          · exact Or.inl hfits
          · rcases push_extreme product { factor with power := n } hproduct hextreme with
              ⟨e, he, hoverflow⟩
            exact Or.inr ⟨hkind, e, by simp only [he]; rfl, Or.inl hoverflow⟩
        · have hfactor : Known { factor with power := n } := hknown factor List.mem_cons_self
          exact ih (fun f hf => hknown f (List.mem_cons_of_mem _ hf)) next
            (CompoundUnit.push_tidy product next _ hproduct hfactor hnext)

/-- Raising exponents accounts for it. A narrowing that changes one is followed by a narrowing
    to eight bits that fails. -/
theorem scaledExponents_accounts (overflow : UnitError Float) (hreport : overflow.IsReport)
    (exponent : Float) (powers : List Int) :
    Accounts excused (scaledExponents overflow exponent powers)
      (CompoundUnit.scaledExponents? overflow exponent powers) := by
  induction powers with
  | nil => exact .pure _
  | cons power rest ih =>
      rw [scaledExponents, CompoundUnit.scaledExponents?]
      have hscaled : CompoundUnit.scaledPower? power exponent =
          Double.integral? (Arithmetic.ofInt power * exponent) := rfl
      rw [hscaled]
      rcases integral?_cases (ε := UnitError Float) (Arithmetic.ofInt power * exponent) with
        ⟨hnone, hrun⟩ | ⟨n, op, hsome, hrun, hkind, hop⟩
      · rw [hnone, hrun]
        exact .pure _
      · rw [hsome, hrun]
        simp only
        refine Accounts.record op _ _ ?_ ?_
        · rcases hop with hfits | hextreme
          · exact Or.inl hfits
          · have hout : ¬Dimension.inRange n = true := by grind
            exact Or.inr ⟨hkind, overflow, if_neg hout, hreport⟩
        · refine Accounts.checked_narrow 8 n overflow hreport Dimension.inRange
            (WordOp.fits_byte n _).mpr _ _ fun hfits => ?_
          rw [if_pos ((WordOp.fits_byte n _).mp hfits)]
          exact .bind _ _ _ _ ih fun _ _ => .pure _

/-- A real power accounts for it. -/
theorem powReal_accounts (unit : CompoundUnit Float) (exponent : Float)
    (hunit : Tidy unit.factors) :
    Accounts excused (powReal unit exponent) (unit.powReal exponent) := by
  rw [CompoundUnit.powReal]
  refine .bind _ _ _ _ (powFactors_accounts exponent unit.factors hunit.known none
    CompoundUnit.tidy_nil) fun product? _ => ?_
  cases product? with
  | some product =>
      exact check_accounts product
  | none =>
      simp only
      refine .bind _ _ _ _ (dimension_accounts unit) fun d _ => .bind _ _ _ _
        (scaledExponents_accounts _ (Or.inl ⟨_, rfl⟩) exponent d.exponents) fun exponents? _ => ?_
      cases exponents?.bind CompoundUnit.dimensionOf? with
      | some d => exact .pure _
      | none => exact .fail _ nofun

end RealPowers

end WordRun

end Metrology
