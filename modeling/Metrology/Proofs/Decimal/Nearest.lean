import Mathlib.Algebra.Order.Field.Power
import Mathlib.Tactic.FieldSimp
import Mathlib.Tactic.Linarith
import Mathlib.Tactic.Positivity
import Mathlib.Tactic.Ring
import Metrology.Decimal.Shortest

/-!
# Decimals that round to a double

Numbers are read and written in natural numbers: a quotient is scaled by a power of
two or ten, divided, and the quotient is rounded. Read as rational numbers, the
scaling is a division by a power, the comparisons are comparisons of numbers, and
how a number is split into numerator and denominator does not matter.

A double `m * 2 ^ e` is what the numbers of an interval around it round to. Inside
of the interval the scale of a number is the one of the double, with one exception:
where a binade begins, the numbers below belong to the binade below, whose doubles
lie twice as close. There the significand rounds up to the first one of the next
binade, and the encoding is the same.

The shortest decimal is looked for in that interval on coarser and finer grids. It
is found, since seventeen digits lie closer than doubles do: `2 ^ 53 < 10 ^ 16`.

## Main definitions

* `Decimal.toRat`: The number that a decimal denotes.
* `Rounds.Holds`: The numbers that round to a double.

## Theorems

* `Decimal.scaled_div`, `Decimal.leading_spec`: Scaling, and the scale of a number.
* `Decimal.decade_spec`, `Binary64.binade_spec`: Decimal and binary scales.
* `Decimal.roundDiv_eq`: What is rounded to a whole number.
* `Rounds.contains_iff`: The test reads the number of a decimal only.
* `Rounds.holds_shortest`: The shortest decimal rounds to the double.
* `Binary64.nearestBits_eq`: A number of the interval is read as the double.
-/

namespace Metrology

namespace Decimal

/-- The number that a decimal denotes. -/
def toRat (d : Decimal) : ℚ := d.coefficient * 10 ^ d.exponent

section Scaling

variable (base : ℕ) (hbase : 2 ≤ base)

include hbase in
/-- Scaling numerator and denominator is dividing by a power. -/
theorem scaled_div (num den : ℕ) (k : ℤ) :
    ((num * base ^ (-k).toNat : ℕ) : ℚ) / (den * base ^ k.toNat : ℕ) =
      (num : ℚ) / den / (base : ℚ) ^ k := by
  have hpos : (0 : ℚ) < base := by exact_mod_cast (by omega : 0 < base)
  have hsplit : (base : ℚ) ^ k = (base : ℚ) ^ k.toNat / (base : ℚ) ^ (-k).toNat := by
    rw [← zpow_natCast, ← zpow_natCast, ← zpow_sub₀ hpos.ne']
    congr 1
    omega
  rw [hsplit]
  push_cast
  field_simp

include hbase in
/-- Comparing a scaled quotient with one is comparing it with a power. -/
theorem scaled_le_iff (num den : ℕ) (hden : 0 < den) (k : ℤ) :
    den * base ^ k.toNat ≤ num * base ^ (-k).toNat ↔ (base : ℚ) ^ k ≤ (num : ℚ) / den := by
  have hpos : (0 : ℚ) < (base : ℚ) ^ k := by
    have : (0 : ℚ) < base := by exact_mod_cast (by omega : 0 < base)
    positivity
  have hscale : (0 : ℚ) < (den * base ^ k.toNat : ℕ) := by
    exact_mod_cast Nat.mul_pos hden (Nat.pow_pos (by omega))
  rw [← one_le_div₀ hpos, ← scaled_div base hbase, one_le_div₀ hscale, Nat.cast_le]

include hbase in
/-- A guess that is at most one too large, corrected by one comparison, is the scale of a
    quotient. -/
theorem leading_spec (num den : ℕ) (hden : 0 < den) (guess : ℤ)
    (hlow : (base : ℚ) ^ (guess - 1) ≤ (num : ℚ) / den)
    (hhigh : (num : ℚ) / den < (base : ℚ) ^ (guess + 1)) :
    let k := if den * base ^ guess.toNat ≤ num * base ^ (-guess).toNat then guess else guess - 1
    (base : ℚ) ^ k ≤ (num : ℚ) / den ∧ (num : ℚ) / den < (base : ℚ) ^ (k + 1) := by
  intro k
  by_cases hle : den * base ^ guess.toNat ≤ num * base ^ (-guess).toNat
  · have hk : k = guess := if_pos hle
    rw [hk]
    exact ⟨(scaled_le_iff base hbase num den hden guess).mp hle, hhigh⟩
  · have hk : k = guess - 1 := if_neg hle
    rw [hk, sub_add_cancel]
    refine ⟨hlow, ?_⟩
    rw [scaled_le_iff base hbase num den hden guess, not_le] at hle
    exact hle

include hbase in
/-- The guess from the scales of numerator and denominator. -/
theorem guess_bounds (num den : ℕ) (numScale denScale : ℕ)
    (hnum : base ^ numScale ≤ num ∧ num < base ^ (numScale + 1))
    (hden : base ^ denScale ≤ den ∧ den < base ^ (denScale + 1)) :
    (base : ℚ) ^ ((numScale : ℤ) - denScale - 1) ≤ (num : ℚ) / den ∧
      (num : ℚ) / den < (base : ℚ) ^ ((numScale : ℤ) - denScale + 1) := by
  have hpos : (0 : ℚ) < base := by exact_mod_cast (by omega : 0 < base)
  have hnumLow : (base : ℚ) ^ numScale ≤ num := by exact_mod_cast hnum.1
  have hnumHigh : (num : ℚ) < (base : ℚ) ^ (numScale + 1) := by exact_mod_cast hnum.2
  have hdenLow : (base : ℚ) ^ denScale ≤ den := by exact_mod_cast hden.1
  have hdenHigh : (den : ℚ) < (base : ℚ) ^ (denScale + 1) := by exact_mod_cast hden.2
  have hdenPos : (0 : ℚ) < den := lt_of_lt_of_le (by positivity) hdenLow
  have hlow : (base : ℚ) ^ ((numScale : ℤ) - denScale - 1) =
      (base : ℚ) ^ numScale / (base : ℚ) ^ (denScale + 1) := by
    rw [← zpow_natCast, ← zpow_natCast, ← zpow_sub₀ hpos.ne']
    congr 1
    push_cast
    ring
  have hhigh : (base : ℚ) ^ ((numScale : ℤ) - denScale + 1) =
      (base : ℚ) ^ (numScale + 1) / (base : ℚ) ^ denScale := by
    rw [← zpow_natCast, ← zpow_natCast, ← zpow_sub₀ hpos.ne']
    congr 1
    push_cast
    ring
  rw [hlow, hhigh]
  constructor
  · exact div_le_div₀ (by positivity) hnumLow hdenPos hdenHigh.le
  · exact div_lt_div₀ hnumHigh hdenLow (by positivity) (by positivity)

end Scaling

theorem digitCount_bounds (n : ℕ) (hn : 0 < n) :
    10 ^ (digitCount n - 1) ≤ n ∧ n < 10 ^ (digitCount n - 1 + 1) := by
  have hcount : 0 < digitCount n := List.length_pos_iff.mpr Nat.toDigits_ne_nil
  rw [Nat.sub_add_cancel hcount]
  refine ⟨?_, (Nat.length_toDigits_le_iff (by decide) hcount).mp le_rfl⟩
  by_cases hone : digitCount n = 1
  · rw [hone]
    simpa using Nat.one_le_iff_ne_zero.mpr hn.ne'
  · rw [← not_lt, ← Nat.length_toDigits_le_iff (by decide) (by omega)]
    change ¬ digitCount n ≤ digitCount n - 1
    omega

/-- The decimal scale of a quotient. -/
theorem decade_spec (num den : ℕ) (hnum : 0 < num) (hden : 0 < den) :
    (10 : ℚ) ^ decade num den ≤ (num : ℚ) / den ∧
      (num : ℚ) / den < (10 : ℚ) ^ (decade num den + 1) := by
  have hguess := guess_bounds 10 (by decide) num den (digitCount num - 1) (digitCount den - 1)
    (digitCount_bounds num hnum) (digitCount_bounds den hden)
  have hnumCount : 0 < digitCount num := List.length_pos_iff.mpr Nat.toDigits_ne_nil
  have hdenCount : 0 < digitCount den := List.length_pos_iff.mpr Nat.toDigits_ne_nil
  have hsame : ((digitCount num - 1 : ℕ) : ℤ) - ((digitCount den - 1 : ℕ) : ℤ) =
      (digitCount num : ℤ) - digitCount den := by omega
  rw [hsame] at hguess
  exact leading_spec 10 (by decide) num den hden _ hguess.1 hguess.2

/-- A quotient within a half of a whole number is rounded to it, from the very half if it
    is even. -/
theorem roundDiv_eq (num den m : ℕ) (hden : 0 < den)
    (hlow : 2 * m * den ≤ 2 * num + den) (hhigh : 2 * num ≤ 2 * m * den + den)
    (hodd : m % 2 = 1 → 2 * m * den < 2 * num + den ∧ 2 * num < 2 * m * den + den) :
    roundDiv num den = m := by
  have hsplit : num = den * (num / den) + num % den := (Nat.div_add_mod num den).symm
  have hrest := Nat.mod_lt num hden
  generalize hquotient : num / den = quotient at hsplit
  generalize hremainder : num % den = rest at hsplit hrest
  have hcases : m = quotient ∨ m = quotient + 1 := by
    have hge : quotient ≤ m := by
      by_contra hlt
      have : den * (m + 1) ≤ den * quotient := Nat.mul_le_mul_left _ (by omega)
      nlinarith
    have hle : m ≤ quotient + 1 := by
      by_contra hlt
      have : den * (quotient + 2) ≤ den * m := Nat.mul_le_mul_left _ (by omega)
      nlinarith
    omega
  have hexpand : 2 * quotient * den = 2 * (den * quotient) := by ring
  have hsucc : 2 * (quotient + 1) * den = 2 * (den * quotient) + 2 * den := by ring
  rw [roundDiv, hquotient, hremainder]
  rcases hcases with rfl | rfl
  · rw [hexpand] at hlow hhigh hodd
    split
    · rfl
    · split
      · omega
      · split
        · rfl
        · omega
  · rw [hsucc] at hlow hhigh hodd
    split
    · omega
    · split
      · rfl
      · split
        · omega
        · rfl

/-- The same, read as rational numbers. -/
theorem roundDiv_eq_of_close (num den m : ℕ) (hden : 0 < den)
    (hlow : (m : ℚ) - 1 / 2 ≤ (num : ℚ) / den) (hhigh : (num : ℚ) / den ≤ m + 1 / 2)
    (hodd : m % 2 = 1 → (m : ℚ) - 1 / 2 < (num : ℚ) / den ∧ (num : ℚ) / den < m + 1 / 2) :
    roundDiv num den = m := by
  have hpos : (0 : ℚ) < den := by exact_mod_cast hden
  have hcast : ∀ a b : ℕ, (a : ℚ) ≤ b ↔ a ≤ b := fun a b => Nat.cast_le
  refine roundDiv_eq num den m hden ?_ ?_ fun h => ⟨?_, ?_⟩
  · rw [le_div_iff₀ hpos] at hlow
    have : (2 * m * den : ℚ) ≤ 2 * num + den := by linarith
    exact_mod_cast this
  · rw [div_le_iff₀ hpos] at hhigh
    have : (2 * num : ℚ) ≤ 2 * m * den + den := by linarith
    exact_mod_cast this
  · have hstrict := (hodd h).1
    rw [lt_div_iff₀ hpos] at hstrict
    have : (2 * m * den : ℚ) < 2 * num + den := by linarith
    exact_mod_cast this
  · have hstrict := (hodd h).2
    rw [div_lt_iff₀ hpos] at hstrict
    have : (2 * num : ℚ) < 2 * m * den + den := by linarith
    exact_mod_cast this

end Decimal

namespace Binary64

/-- The binary scale of a quotient. -/
theorem binade_spec (num den : ℕ) (hnum : 0 < num) (hden : 0 < den) :
    (2 : ℚ) ^ binade num den ≤ (num : ℚ) / den ∧
      (num : ℚ) / den < (2 : ℚ) ^ (binade num den + 1) := by
  have hguess := Decimal.guess_bounds 2 le_rfl num den num.log2 den.log2
    ⟨Nat.log2_self_le hnum.ne', Nat.lt_log2_self⟩ ⟨Nat.log2_self_le hden.ne', Nat.lt_log2_self⟩
  exact Decimal.leading_spec 2 le_rfl num den hden _ hguess.1 hguess.2

/-- The binary scale of a quotient is told by two powers. -/
theorem binade_eq (num den : ℕ) (hnum : 0 < num) (hden : 0 < den) (k : ℤ)
    (hlow : (2 : ℚ) ^ k ≤ (num : ℚ) / den) (hhigh : (num : ℚ) / den < (2 : ℚ) ^ (k + 1)) :
    binade num den = k := by
  rcases binade_spec num den hnum hden with ⟨hspecLow, hspecHigh⟩
  have hle : k < binade num den + 1 :=
    (zpow_lt_zpow_iff_right₀ (by norm_num)).mp (hlow.trans_lt hspecHigh)
  have hge : binade num den < k + 1 :=
    (zpow_lt_zpow_iff_right₀ (by norm_num)).mp (hspecLow.trans_lt hhigh)
  omega

end Binary64

namespace Decimal

theorem toRat_eq (d : Decimal) : d.toRat = (d.numerator : ℚ) / d.denominator := by
  have hscaled := scaled_div 10 (by decide) d.coefficient 1 (-d.exponent)
  rw [neg_neg, Nat.one_mul, Nat.cast_one, div_one, zpow_neg, div_inv_eq_mul] at hscaled
  rw [toRat, numerator, denominator, hscaled]
  norm_num

theorem denominator_pos (d : Decimal) : 0 < d.denominator := Nat.pow_pos (by decide)

/-- Zeros at the end of the coefficient do not count. -/
theorem toRat_trimZeros (d : Decimal) : d.trimZeros.toRat = d.toRat := by
  have hgo : ∀ fuel c e, (trimZeros.go fuel c e).toRat = (⟨c, e⟩ : Decimal).toRat := by
    intro fuel
    induction fuel with
    | zero => exact fun c e => rfl
    | succ fuel ih =>
        intro c e
        rw [trimZeros.go]
        split
        · next h =>
          have hc : (c : ℚ) = (c / 10 : ℕ) * 10 := by
            exact_mod_cast (Nat.div_mul_cancel (Nat.dvd_of_mod_eq_zero h.2)).symm
          rw [ih, toRat, toRat]
          simp only
          rw [hc, zpow_add₀ (by norm_num), zpow_one]
          ring
        · rfl
  exact hgo _ _ _

/-- Rounding to a grid moves a number by half of its spacing at most. -/
theorem roundAt_close (num den : ℕ) (hden : 0 < den) (k : ℤ) :
    |(⟨roundAt num den k, k⟩ : Decimal).toRat - (num : ℚ) / den| ≤ 10 ^ k / 2 := by
  have hpos : (0 : ℚ) < 10 ^ k := by positivity
  have hscaledDen : 0 < den * 10 ^ k.toNat := Nat.mul_pos hden (Nat.pow_pos (by decide))
  have hscaled := scaled_div 10 (by decide) num den k
  push_cast at hscaled
  have hround : |(roundAt num den k : ℚ) - (num : ℚ) / den / 10 ^ k| ≤ 1 / 2 := by
    rw [roundAt, ← hscaled]
    generalize hnum : num * 10 ^ (-k).toNat = n
    generalize hden' : den * 10 ^ k.toNat = d at hscaledDen
    have hcast : (num : ℚ) * 10 ^ (-k).toNat / (den * 10 ^ k.toNat) = (n : ℚ) / d := by
      rw [← hnum, ← hden']
      push_cast
      rfl
    have hdpos : (0 : ℚ) < d := by exact_mod_cast hscaledDen
    have habove : (2 * (roundDiv n d * d) : ℚ) ≤ 2 * n + d := by
      exact_mod_cast two_mul_roundDiv_le n d
    have hbelow : (2 * n : ℚ) ≤ 2 * (roundDiv n d * d) + d := by
      exact_mod_cast le_two_mul_roundDiv n d hscaledDen
    rw [hcast, abs_le]
    constructor
    · rw [neg_le_sub_iff_le_add, div_le_iff₀ hdpos]
      linarith
    · rw [sub_le_iff_le_add, ← sub_le_iff_le_add', le_div_iff₀ hdpos]
      linarith
  have hfactor : (⟨roundAt num den k, k⟩ : Decimal).toRat - (num : ℚ) / den =
      ((roundAt num den k : ℚ) - (num : ℚ) / den / 10 ^ k) * 10 ^ k := by
    rw [toRat, sub_mul, div_mul_cancel₀ _ hpos.ne']
  rw [hfactor, abs_mul, abs_of_pos hpos]
  calc |(roundAt num den k : ℚ) - (num : ℚ) / den / 10 ^ k| * 10 ^ k
      ≤ 1 / 2 * 10 ^ k := mul_le_mul_of_nonneg_right hround hpos.le
    _ = 10 ^ k / 2 := by ring

end Decimal

/-- The parts of a positive finite double. -/
structure Binary64.IsPositive (significand : ℕ) (exponent : ℤ) : Prop where
  pos : 0 < significand
  lt : significand < 2 ^ 53
  least : -1074 ≤ exponent
  normal : 2 ^ 52 ≤ significand ∨ exponent = -1074

namespace Rounds

/-- The numbers of an interval. -/
def Holds (r : Rounds) (x : ℚ) : Prop :=
  if r.closed = true then (r.low : ℚ) / r.unit ≤ x ∧ x ≤ (r.high : ℚ) / r.unit
  else (r.low : ℚ) / r.unit < x ∧ x < (r.high : ℚ) / r.unit

/-- The test reads the number of a decimal only. -/
theorem contains_iff (r : Rounds) (hunit : 0 < r.unit) (d : Decimal) :
    r.contains d = true ↔ r.Holds d.toRat := by
  have hpos : (0 : ℚ) < r.unit := by exact_mod_cast hunit
  have hden : (0 : ℚ) < d.denominator := by exact_mod_cast d.denominator_pos
  rw [contains, Holds, d.toRat_eq]
  simp only [div_le_div_iff₀ hpos hden, div_le_div_iff₀ hden hpos, div_lt_div_iff₀ hpos hden,
    div_lt_div_iff₀ hden hpos]
  split
  · rw [Bool.and_eq_true, decide_eq_true_eq, decide_eq_true_eq]
    exact and_congr (by exact_mod_cast Iff.rfl) (by exact_mod_cast Iff.rfl)
  · rw [Bool.and_eq_true, decide_eq_true_eq, decide_eq_true_eq]
    exact and_congr (by exact_mod_cast Iff.rfl) (by exact_mod_cast Iff.rfl)

/-- Strictly between the ends every number belongs to the interval. -/
theorem holds_of_between (r : Rounds) (x : ℚ) (hlow : (r.low : ℚ) / r.unit < x)
    (hhigh : x < (r.high : ℚ) / r.unit) : r.Holds x := by
  rw [Holds]
  split
  · exact ⟨hlow.le, hhigh.le⟩
  · exact ⟨hlow, hhigh⟩

/-- What is found on a grid belongs to the interval. -/
theorem contains_of_onGrid? (r : Rounds) (k : ℤ) (d : Decimal) (h : r.onGrid? k = some d) :
    r.contains d = true := by
  rw [onGrid?] at h
  split at h
  · next hbelow habove =>
    rw [← Option.some.inj h]
    split
    · exact hbelow
    · exact habove
  · next hbelow habove =>
    rw [← Option.some.inj h]
    exact hbelow
  · next hbelow habove =>
    rw [← Option.some.inj h]
    exact habove
  · cases h

section Binary

variable (significand : ℕ) (exponent : ℤ) (h : Binary64.IsPositive significand exponent)

/-- How far the interval reaches below its double, in quarters of the last digit. -/
def reach : ℕ :=
  if significand = Binary64.leastNormal ∧ Binary64.leastExponent < exponent then 1 else 2

theorem unit_pos : 0 < (ofBinary significand exponent).unit :=
  Nat.mul_pos (by decide) (Nat.pow_pos (by decide))

theorem scaled_quarters (count : ℕ) :
    ((count * 2 ^ exponent.toNat : ℕ) : ℚ) / (4 * 2 ^ (-exponent).toNat : ℕ) =
      count / 4 * 2 ^ exponent := by
  have hscaled := Decimal.scaled_div 2 le_rfl count 4 (-exponent)
  rw [neg_neg, zpow_neg, div_inv_eq_mul] at hscaled
  rw [hscaled]
  norm_num

theorem value_eq : ((ofBinary significand exponent).value : ℚ) /
    (ofBinary significand exponent).unit = significand * 2 ^ exponent := by
  rw [ofBinary, scaled_quarters]
  push_cast
  ring

include h in
theorem low_eq : ((ofBinary significand exponent).low : ℚ) /
    (ofBinary significand exponent).unit =
      (significand - reach significand exponent / 4) * 2 ^ exponent := by
  have hreach : reach significand exponent ≤ 4 * significand := by
    have := h.pos
    rw [reach]
    split <;> omega
  have hlow : (ofBinary significand exponent).low =
      (4 * significand - reach significand exponent) * 2 ^ exponent.toNat := rfl
  have hunit : (ofBinary significand exponent).unit = 4 * 2 ^ (-exponent).toNat := rfl
  rw [hlow, hunit, scaled_quarters, Nat.cast_sub hreach]
  push_cast
  ring

theorem high_eq : ((ofBinary significand exponent).high : ℚ) /
    (ofBinary significand exponent).unit = (significand + 1 / 2) * 2 ^ exponent := by
  rw [ofBinary, scaled_quarters]
  push_cast
  ring

include h in
/-- Seventeen digits lie closer than doubles do. -/
theorem holds_last :
    let r := ofBinary significand exponent
    let k := Decimal.decade r.value r.unit - 16
    r.Holds (⟨Decimal.roundAt r.value r.unit k, k⟩ : Decimal).toRat := by
  intro r k
  have hpower : (0 : ℚ) < 2 ^ exponent := by positivity
  have hsignificand : (1 : ℚ) ≤ significand := by exact_mod_cast h.pos
  have hvalue : (r.value : ℚ) / r.unit = significand * 2 ^ exponent := value_eq _ _
  have hvaluePos : 0 < r.value :=
    Nat.mul_pos (Nat.mul_pos (by decide) h.pos) (Nat.pow_pos (by decide))
  have hclose := Decimal.roundAt_close r.value r.unit (unit_pos _ _) k
  rw [hvalue, abs_le] at hclose
  -- The spacing of the grid against the value and so against the last binary digit.
  have hgrid : (10 : ℚ) ^ k * 10 ^ 16 ≤ significand * 2 ^ exponent := by
    have hdecade := (Decimal.decade_spec r.value r.unit hvaluePos (unit_pos _ _)).1
    rw [hvalue] at hdecade
    have hk : (10 : ℚ) ^ k * 10 ^ 16 = 10 ^ Decimal.decade r.value r.unit := by
      rw [← zpow_natCast, ← zpow_add₀ (by norm_num)]
      congr 1
      change Decimal.decade r.value r.unit - 16 + 16 = _
      omega
    rw [hk]
    exact hdecade
  have hhalf : (10 : ℚ) ^ k / 2 < 1 / 2 * 2 ^ exponent := by
    have hbound : (significand : ℚ) < 10 ^ 16 := by
      have : significand < 10 ^ 16 := h.lt.trans (by decide)
      exact_mod_cast this
    have := mul_lt_mul_of_pos_right hbound hpower
    linarith
  have hbelow : (10 : ℚ) ^ k / 2 < reach significand exponent / 4 * 2 ^ exponent := by
    rw [reach]
    split
    · next hleast =>
      rw [hleast.1, Binary64.leastNormal] at hgrid
      push_cast at hgrid ⊢
      linarith
    · push_cast
      linarith
  refine r.holds_of_between _ ?_ ?_
  · rw [low_eq significand exponent h]
    linarith [hclose.1]
  · rw [high_eq]
    linarith [hclose.2]

include h in
/-- The shortest decimal rounds to the double. -/
theorem holds_shortest :
    (ofBinary significand exponent).Holds (ofBinary significand exponent).shortest.toRat := by
  rw [shortest]
  rw [Decimal.toRat_trimZeros]
  cases hfound : (List.range 17).findSome? fun (place : ℕ) =>
      (ofBinary significand exponent).onGrid? (Decimal.decade
        (ofBinary significand exponent).value (ofBinary significand exponent).unit -
          (place : ℤ)) with
  | none => exact holds_last significand exponent h
  | some d =>
      rcases List.exists_of_findSome?_eq_some hfound with ⟨place, -, hgrid⟩
      rw [Option.getD_some, ← contains_iff _ (unit_pos _ _)]
      exact contains_of_onGrid? _ _ d hgrid

/-- The interval as bounds on a number; for an odd significand they are strict. -/
theorem bounds_of_holds (h : Binary64.IsPositive significand exponent) (x : ℚ)
    (hx : (ofBinary significand exponent).Holds x) :
    ((significand - reach significand exponent / 4) * 2 ^ exponent ≤ x ∧
        x ≤ (significand + 1 / 2) * 2 ^ exponent) ∧
      (significand % 2 = 1 → (significand - reach significand exponent / 4) * 2 ^ exponent < x ∧
        x < (significand + 1 / 2) * 2 ^ exponent) := by
  have hclosed : (ofBinary significand exponent).closed = decide (significand % 2 = 0) := rfl
  rw [Holds, hclosed, low_eq significand exponent h, high_eq] at hx
  split at hx
  · next heven =>
    rw [decide_eq_true_eq] at heven
    exact ⟨hx, fun hodd => by omega⟩
  · exact ⟨⟨hx.1.le, hx.2.le⟩, fun _ => hx⟩

theorem reach_le_two : (reach significand exponent : ℚ) ≤ 2 := by
  rw [reach]
  split <;> norm_num

end Binary

end Rounds

namespace Binary64

variable (significand : ℕ) (exponent : ℤ) (h : IsPositive significand exponent) (num den : ℕ)
  (hden : 0 < den)
  (hholds : (Rounds.ofBinary significand exponent).Holds ((num : ℚ) / den))

/-- The exponent of the double nearest to a quotient. -/
def exponentOf (num den : ℕ) : ℤ := max (binade num den - 52) leastExponent

include h hden hholds in
theorem num_pos_of_holds : 0 < num := by
  rcases (Rounds.bounds_of_holds significand exponent h _ hholds).1 with ⟨hlow, -⟩
  have hpower : (0 : ℚ) < 2 ^ exponent := by positivity
  have hsignificand : (1 : ℚ) ≤ significand := by exact_mod_cast h.pos
  have hreach := Rounds.reach_le_two significand exponent
  have hpositive : (0 : ℚ) < (significand - Rounds.reach significand exponent / 4) * 2 ^ exponent :=
    mul_pos (by linarith) hpower
  have hdenPos : (0 : ℚ) < den := by exact_mod_cast hden
  have hnum := hpositive.trans_le hlow
  rw [div_pos_iff_of_pos_right hdenPos] at hnum
  exact_mod_cast hnum

theorem two_zpow_add (k : ℕ) : (2 : ℚ) ^ (exponent + k) = 2 ^ k * 2 ^ exponent := by
  rw [zpow_add₀ (by norm_num), zpow_natCast, mul_comm]

include h hden hholds in
/-- A number of the interval that has as many binary digits as a normal significand. -/
theorem binade_of_full (hfull : 2 ^ 52 * 2 ^ exponent ≤ (num : ℚ) / den) :
    binade num den = exponent + 52 := by
  have hhigh := (Rounds.bounds_of_holds significand exponent h _ hholds).1.2
  have hpower : (0 : ℚ) < 2 ^ exponent := by positivity
  have hbelow : (num : ℚ) / den < 2 ^ 53 * 2 ^ exponent := by
    have hsignificand : (significand : ℚ) + 1 ≤ 2 ^ 53 := by exact_mod_cast h.lt
    calc (num : ℚ) / den ≤ (significand + 1 / 2) * 2 ^ exponent := hhigh
      _ < 2 ^ 53 * 2 ^ exponent := mul_lt_mul_of_pos_right (by linarith) hpower
  rw [← two_zpow_add exponent 52] at hfull
  rw [← two_zpow_add exponent 53] at hbelow
  have hnext : exponent + 52 + 1 = exponent + (53 : ℕ) := by omega
  exact binade_eq num den (num_pos_of_holds significand exponent h num den hden hholds) hden _
    hfull (hnext ▸ hbelow)

include h hholds in
/-- A number of the interval has fewer digits only below the first significand of a binade,
    which reaches a quarter down. -/
theorem first_of_short (hleast : -1074 < exponent)
    (hshort : (num : ℚ) / den < 2 ^ 52 * 2 ^ exponent) :
    significand = 2 ^ 52 ∧ (2 ^ 52 - 1 / 4) * 2 ^ exponent ≤ (num : ℚ) / den := by
  have hlow := (Rounds.bounds_of_holds significand exponent h _ hholds).1.1
  have hnormal := h.normal.resolve_right (by omega)
  have hfirst : significand = 2 ^ 52 := by
    by_contra hne
    have hnext : (2 ^ 52 + 1 : ℚ) ≤ significand := by
      have : 2 ^ 52 + 1 ≤ significand := by omega
      exact_mod_cast this
    have hreach := Rounds.reach_le_two significand exponent
    have hpower : (0 : ℚ) < 2 ^ exponent := by positivity
    have hge : (2 : ℚ) ^ 52 * 2 ^ exponent ≤
        (significand - Rounds.reach significand exponent / 4) * 2 ^ exponent :=
      mul_le_mul_of_nonneg_right (by linarith) hpower.le
    linarith
  have hreach : (Rounds.reach significand exponent : ℚ) = 1 := by
    rw [Rounds.reach, if_pos ⟨hfirst, hleast⟩, Nat.cast_one]
  rw [hreach, hfirst] at hlow
  push_cast at hlow
  exact ⟨hfirst, hlow⟩

include hden in
theorem binade_of_short (hnum : 0 < num) (hlow : (2 ^ 52 - 1 / 4) * 2 ^ exponent ≤ (num : ℚ) / den)
    (hshort : (num : ℚ) / den < 2 ^ 52 * 2 ^ exponent) : binade num den = exponent + 51 := by
  have hpower : (0 : ℚ) < 2 ^ exponent := by positivity
  have hhalf : (2 : ℚ) ^ (exponent + (51 : ℕ)) ≤ (2 ^ 52 - 1 / 4) * 2 ^ exponent := by
    rw [two_zpow_add]
    exact mul_le_mul_of_nonneg_right (by norm_num) hpower.le
  rw [← two_zpow_add exponent 52] at hshort
  have hnext : exponent + 51 + 1 = exponent + (52 : ℕ) := by omega
  exact binade_eq num den hnum hden _ (hhalf.trans hlow) (hnext ▸ hshort)

include h hden hholds in
/-- A number of the interval has the exponent of the double, or it lies below the first
    double of a binade and has the exponent before it. -/
theorem exponentOf_cases :
    exponentOf num den = exponent ∨
      exponentOf num den = exponent - 1 ∧ significand = 2 ^ 52 ∧ -1074 < exponent ∧
        (2 ^ 52 - 1 / 4) * 2 ^ exponent ≤ (num : ℚ) / den ∧
        (num : ℚ) / den < 2 ^ 52 * 2 ^ exponent := by
  have hnum := num_pos_of_holds significand exponent h num den hden hholds
  have hleastExponent := h.least
  rw [exponentOf, leastExponent]
  rcases le_or_gt ((2 : ℚ) ^ 52 * 2 ^ exponent) ((num : ℚ) / den) with hfull | hshort
  · have hbinade := binade_of_full significand exponent h num den hden hholds hfull
    left
    omega
  · have hbinade : binade num den < exponent + 52 := by
      have hlt := (binade_spec num den hnum hden).1.trans_lt hshort
      rw [← two_zpow_add exponent 52, zpow_lt_zpow_iff_right₀ (by norm_num)] at hlt
      exact hlt
    rcases eq_or_lt_of_le hleastExponent with hleast | hleast
    · -- Subnormal doubles share the least exponent, however few digits they have.
      left
      omega
    · rcases first_of_short significand exponent h num den hholds hleast hshort with
        ⟨hfirst, hlow⟩
      have hbefore := binade_of_short exponent num den hden hnum hlow hshort
      exact .inr ⟨by omega, hfirst, hleast, hlow, hshort⟩

include h hholds in
/-- In units of the last digit a number of the interval is rounded to the significand. -/
theorem roundDiv_at (hden : 0 < den * 2 ^ exponent.toNat) :
    Decimal.roundDiv (num * 2 ^ (-exponent).toNat) (den * 2 ^ exponent.toNat) = significand := by
  rcases Rounds.bounds_of_holds significand exponent h _ hholds with ⟨⟨hlow, hhigh⟩, hodd⟩
  have hpower : (0 : ℚ) < 2 ^ exponent := by positivity
  have hreach := Rounds.reach_le_two significand exponent
  have hscaled := Decimal.scaled_div 2 le_rfl num den exponent
  push_cast at hscaled
  refine Decimal.roundDiv_eq_of_close _ _ _ hden ?_ ?_ fun hoddSignificand => ⟨?_, ?_⟩
  · push_cast
    rw [hscaled, le_div_iff₀ hpower]
    exact (mul_le_mul_of_nonneg_right (by linarith) hpower.le).trans hlow
  · push_cast
    rw [hscaled, div_le_iff₀ hpower]
    exact hhigh
  · push_cast
    rw [hscaled, lt_div_iff₀ hpower]
    exact (mul_le_mul_of_nonneg_right (by linarith) hpower.le).trans_lt (hodd hoddSignificand).1
  · push_cast
    rw [hscaled, div_lt_iff₀ hpower]
    exact (hodd hoddSignificand).2

/-- In units of half the last digit a number a quarter below the first significand is rounded
    up to the first one of the next binade. -/
theorem roundDiv_before (hden : 0 < den * 2 ^ (exponent - 1).toNat)
    (hquarter : (2 ^ 52 - 1 / 4) * 2 ^ exponent ≤ (num : ℚ) / den)
    (hbelow : (num : ℚ) / den < 2 ^ 52 * 2 ^ exponent) :
    Decimal.roundDiv (num * 2 ^ (-(exponent - 1)).toNat) (den * 2 ^ (exponent - 1).toNat) =
      2 ^ 53 := by
  have hpower : (0 : ℚ) < 2 ^ exponent := by positivity
  have hhalf : (2 : ℚ) ^ (exponent - 1) = 2 ^ exponent / 2 := by
    rw [zpow_sub₀ (by norm_num), zpow_one]
  have hscaled := Decimal.scaled_div 2 le_rfl num den (exponent - 1)
  refine Decimal.roundDiv_eq_of_close _ _ _ hden ?_ ?_ fun hodd => ?_
  · rw [hscaled]
    push_cast
    rw [hhalf, le_div_iff₀ (by positivity)]
    linarith
  · rw [hscaled]
    push_cast
    rw [hhalf, div_le_iff₀ (by positivity)]
    linarith
  · norm_num at hodd

include h hden hholds in
/-- A number of the interval is read as the double. -/
theorem nearestBits_eq
    (hfinite : (exponent - leastExponent).toNat * leastNormal + significand < infinityBits) :
    nearestBits num den = (exponent - leastExponent).toNat * leastNormal + significand := by
  have hnum := num_pos_of_holds significand exponent h num den hden hholds
  have hdenScaled : ∀ k : ℤ, 0 < den * 2 ^ k.toNat := fun k =>
    Nat.mul_pos hden (Nat.pow_pos (by decide))
  have hbits : nearestBits num den = min infinityBits
      ((exponentOf num den - leastExponent).toNat * leastNormal +
        Decimal.roundDiv (num * 2 ^ (-exponentOf num den).toNat)
          (den * 2 ^ (exponentOf num den).toNat)) := by
    rw [nearestBits, if_neg hnum.ne']
    rfl
  rw [hbits]
  rcases exponentOf_cases significand exponent h num den hden hholds with
    hsame | ⟨hbefore, hfirst, hexponent, hquarter, hbelow⟩
  · rw [hsame, roundDiv_at significand exponent h num den hholds (hdenScaled _)]
    exact min_eq_right hfinite.le
  · rw [hbefore, roundDiv_before exponent num den (hdenScaled _) hquarter hbelow, hfirst]
    rw [hfirst] at hfinite
    -- The carry out of the significand is what the next exponent adds.
    have hcarry : (exponent - 1 - leastExponent).toNat * leastNormal + 2 ^ 53 =
        (exponent - leastExponent).toNat * leastNormal + 2 ^ 52 := by
      rw [leastExponent, leastNormal]
      omega
    rw [hcarry]
    exact min_eq_right hfinite.le

end Binary64

end Metrology
