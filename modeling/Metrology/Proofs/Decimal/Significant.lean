import Mathlib.Data.Int.Log
import Mathlib.Data.Rat.Floor
import Metrology.Proofs.Decimal.Digits
import Metrology.Proofs.Decimal.Nearest

/-!
# Significant digits

A number is rounded to significant digits at the place of the last of them, which its first
digit tells. As rational numbers have it: divide by the power of ten, round to a whole
number, and multiply again. What is rounded on quotients of natural numbers is the same.

Rounding to a whole number is told by what it leaves. There is one whole number within a
half of a number, or there are two, of which one is even.

How many digits a list shows from the first on that is not zero is told by the size of the
number that it denotes.

## Main definitions

* `Decimal.roundEven`: A number rounded to a whole number, ties to even.
* `Decimal.digitPlace`: The place of the last significant digit.
* `Decimal.roundTo`: A number rounded to significant digits.

## Theorems

* `Decimal.roundEven_eq`, `Decimal.roundEven_close`, `Decimal.roundEven_even`: What rounding
  is told by.
* `Decimal.roundEven_ten`: Rounding in units of ten.
* `Decimal.scaled_bounds`: A number in units of its last digit.
* `Decimal.roundAt_eq`: Rounding on quotients of natural numbers.
* `Decimal.decade_eq`: The place of the first digit.
* `Decimal.length_shown`: How many digits are shown.
-/

namespace Metrology.Decimal

section Rounding

/-- A number rounded to a whole number, a half to the even neighbour. -/
def roundEven (q : ℚ) : ℤ :=
  if q - ⌊q⌋ < 1 / 2 then ⌊q⌋
  else if 1 / 2 < q - ⌊q⌋ then ⌊q⌋ + 1
  else if ⌊q⌋ % 2 = 0 then ⌊q⌋
  else ⌊q⌋ + 1

/-- The exponent of the last of some significant digits. -/
def digitPlace (digits : ℕ) (x : ℚ) : ℤ := Int.log 10 |x| - digits + 1

/-- A number rounded to significant digits, ties to even. -/
def roundTo (digits : ℕ) (x : ℚ) : ℚ :=
  roundEven (x / 10 ^ digitPlace digits x) * 10 ^ digitPlace digits x

variable (q : ℚ) (m : ℤ)

/-- Rounding changes a number by a half at most. -/
theorem roundEven_close : |q - roundEven q| ≤ 1 / 2 := by
  have hlow := Int.floor_le q
  have hhigh := Int.lt_floor_add_one q
  rw [roundEven, abs_le]
  split_ifs <;> push_cast <;> constructor <;> linarith

/-- Where it changes a number by a half, the result is even. -/
theorem roundEven_even (htie : |q - roundEven q| = 1 / 2) : roundEven q % 2 = 0 := by
  have hlow := Int.floor_le q
  have hhigh := Int.lt_floor_add_one q
  rw [roundEven] at htie ⊢
  split_ifs at htie ⊢ with hbelow habove heven
  · rw [abs_of_nonneg (by linarith)] at htie
    linarith
  · push_cast at htie
    rw [abs_of_neg (by linarith)] at htie
    linarith
  · exact heven
  · omega

/-- A whole number within a half is what a number is rounded to, from the very half if it is
    even. -/
theorem roundEven_eq (hclose : |q - m| ≤ 1 / 2) (heven : |q - m| = 1 / 2 → m % 2 = 0) :
    roundEven q = m := by
  rcases abs_le.mp hclose with ⟨hlow, hhigh⟩
  rcases lt_or_ge q m with hbelow | habove
  · have hfloor : ⌊q⌋ = m - 1 := by
      rw [Int.floor_eq_iff]
      push_cast
      constructor <;> linarith
    rw [roundEven, hfloor]
    push_cast
    rcases eq_or_lt_of_le hlow with htie | hstrict
    · have hodd := heven (by rw [← htie]; norm_num)
      rw [if_neg (by linarith), if_neg (by linarith), if_neg (by omega), sub_add_cancel]
    · rw [if_neg (by linarith), if_pos (by linarith), sub_add_cancel]
  · have hfloor : ⌊q⌋ = m := by
      rw [Int.floor_eq_iff]
      constructor <;> linarith
    rw [roundEven, hfloor]
    rcases eq_or_lt_of_le hhigh with htie | hstrict
    · have hsame := heven (by rw [htie]; norm_num)
      rw [if_neg (by linarith), if_neg (by linarith), if_pos hsame]
    · rw [if_pos hstrict]

theorem roundEven_neg : roundEven (-q) = -roundEven q := by
  have hdistance : |-q - (-roundEven q : ℤ)| = |q - roundEven q| := by
    rw [← abs_neg]
    push_cast
    congr 1
    ring
  refine roundEven_eq (-q) (-roundEven q) ?_ fun htie => ?_
  · rw [hdistance]
    exact roundEven_close q
  · rw [hdistance] at htie
    have heven := roundEven_even q htie
    omega

/-- Rounding stays between whole numbers. -/
theorem roundEven_bounds (low high : ℕ) (hlow : (low : ℚ) ≤ q) (hhigh : q < high) :
    (low : ℤ) ≤ roundEven q ∧ roundEven q ≤ high := by
  rcases abs_le.mp (roundEven_close q) with ⟨hbelow, habove⟩
  constructor
  · have hlt : (low : ℚ) < roundEven q + 1 := by linarith
    exact Int.lt_add_one_iff.mp (by exact_mod_cast hlt)
  · have hlt : (roundEven q : ℚ) < high + 1 := by linarith
    exact Int.lt_add_one_iff.mp (by exact_mod_cast hlt)

/-- What is rounded to a multiple of ten is rounded there also in units of ten. -/
theorem roundEven_ten (h : roundEven q = 10 * m) : roundEven (q / 10) = m := by
  have hclose := roundEven_close q
  rw [h, Int.cast_mul, Int.cast_ofNat, abs_le] at hclose
  have hwithin : |q / 10 - m| < 1 / 2 := by
    rw [abs_lt]
    constructor <;> linarith
  exact roundEven_eq _ m hwithin.le fun htie => absurd htie hwithin.ne

/-- In units of its last digit a positive number has as many whole digits. -/
theorem scaled_bounds (digits : ℕ) (hdigits : 1 ≤ digits) (x : ℚ) (hx : 0 < x) :
    ((10 ^ (digits - 1) : ℕ) : ℚ) ≤ x / 10 ^ digitPlace digits x ∧
      x / 10 ^ digitPlace digits x < ((10 ^ digits : ℕ) : ℚ) := by
  have hunit : (0 : ℚ) < 10 ^ digitPlace digits x := by positivity
  have hpower : ∀ k : ℕ, ((10 ^ k : ℕ) : ℚ) * 10 ^ digitPlace digits x =
      10 ^ ((k : ℤ) + digitPlace digits x) := by
    intro k
    rw [zpow_add₀ (by norm_num), zpow_natCast, Nat.cast_pow, Nat.cast_ofNat]
  have hfirst : ((digits - 1 : ℕ) : ℤ) + digitPlace digits x = Int.log 10 x := by
    rw [digitPlace, abs_of_pos hx]
    omega
  have hnext : (digits : ℤ) + digitPlace digits x = Int.log 10 x + 1 := by
    rw [digitPlace, abs_of_pos hx]
    omega
  have hlow := Int.zpow_log_le_self (b := 10) (by decide) hx
  have hhigh := Int.lt_zpow_succ_log_self (b := 10) (by decide) x
  rw [le_div_iff₀ hunit, div_lt_iff₀ hunit, hpower, hpower, hfirst, hnext]
  exact ⟨by exact_mod_cast hlow, by exact_mod_cast hhigh⟩

theorem roundTo_neg (digits : ℕ) : roundTo digits (-q) = -roundTo digits q := by
  have hplace : digitPlace digits (-q) = digitPlace digits q := by
    rw [digitPlace, digitPlace, abs_neg]
  rw [roundTo, roundTo, hplace, neg_div, roundEven_neg, Int.cast_neg, neg_mul]

end Rounding

section Quotients

variable (num den : ℕ) (hden : 0 < den)

include hden

theorem roundDiv_eq_roundEven : (roundDiv num den : ℤ) = roundEven ((num : ℚ) / den) := by
  have hclose := abs_le.mp (roundEven_close ((num : ℚ) / den))
  have htie := roundEven_even ((num : ℚ) / den)
  have hnonneg : (0 : ℚ) ≤ (num : ℚ) / den := by positivity
  have hround : 0 ≤ roundEven ((num : ℚ) / den) := by
    have hbelow : (-1 : ℚ) < roundEven ((num : ℚ) / den) := by linarith [hclose.2]
    have : -1 < roundEven ((num : ℚ) / den) := by exact_mod_cast hbelow
    omega
  rcases Int.eq_ofNat_of_zero_le hround with ⟨m, hm⟩
  rw [hm] at hclose htie ⊢
  rw [Int.cast_natCast] at hclose htie
  rw [roundDiv_eq_of_close num den m hden (by linarith [hclose.1]) (by linarith [hclose.2])]
  intro hodd
  have hstrict : |(num : ℚ) / den - m| ≠ 1 / 2 := fun h => by
    have := htie h
    omega
  have hlt := lt_of_le_of_ne (abs_le.mpr hclose) hstrict
  rw [abs_lt] at hlt
  exact ⟨by linarith [hlt.1], by linarith [hlt.2]⟩

/-- A quotient is rounded to a multiple of a power of ten as its number is. -/
theorem roundAt_eq (k : ℤ) :
    (roundAt num den k : ℤ) = roundEven ((num : ℚ) / den / 10 ^ k) := by
  have hscaled := scaled_div 10 (by decide) num den k
  rw [Nat.cast_ofNat] at hscaled
  rw [roundAt, roundDiv_eq_roundEven _ _ (Nat.mul_pos hden (Nat.pow_pos (by decide))), hscaled]

/-- The place of the first digit is the whole part of the logarithm. -/
theorem decade_eq (hnum : 0 < num) : decade num den = Int.log 10 ((num : ℚ) / den) := by
  rcases decade_spec num den hnum hden with ⟨hlow, hhigh⟩
  have hpositive : (0 : ℚ) < (num : ℚ) / den := by positivity
  have hle := (Int.zpow_le_iff_le_log (b := 10) (by decide) hpositive).mp
    (by rw [Nat.cast_ofNat]; exact hlow)
  have hlt := (Int.lt_zpow_iff_log_lt (b := 10) (by decide) hpositive).mp
    (by rw [Nat.cast_ofNat]; exact hhigh)
  omega

end Quotients

section Digits

theorem digitCount_eq (n count : ℕ) (hcount : 1 ≤ count) (hlow : 10 ^ (count - 1) ≤ n)
    (hhigh : n < 10 ^ count) : digitCount n = count := by
  have hpositive : 0 < n := (Nat.pow_pos (by decide)).trans_le hlow
  rcases digitCount_bounds n hpositive with ⟨hleast, hmost⟩
  have hle := (Nat.pow_lt_pow_iff_right (by decide)).mp (hleast.trans_lt hhigh)
  have hge := (Nat.pow_lt_pow_iff_right (by decide)).mp (hlow.trans_lt hmost)
  have hsome : 0 < digitCount n := List.length_pos_iff.mpr Nat.toDigits_ne_nil
  omega

variable (digits : List Char) (hdigits : ∀ c ∈ digits, c.isDigit = true)

include hdigits

theorem digitsValue_lt : digitsValue digits < 10 ^ digits.length := by
  induction digits using List.reverseRecOn with
  | nil => decide
  | append_singleton digits c ih =>
      have hfront := ih fun d hd => hdigits d (List.mem_append_left _ hd)
      have hlast := hdigits c (List.mem_append_right _ (List.mem_singleton_self c))
      have hrange := toNat_of_isDigit c hlast
      have hzero : '0'.toNat = 48 := rfl
      rw [digitsValue_concat, List.length_append, List.length_singleton, pow_succ, hzero]
      omega

/-- A digit in front that is not zero makes a number large. -/
theorem le_digitsValue (c : Char) (rest : List Char) (hcons : digits = c :: rest) (hc : c ≠ '0') :
    10 ^ rest.length ≤ digitsValue digits := by
  have hrange := toNat_of_isDigit c (hdigits c (hcons ▸ List.mem_cons_self))
  have hfirst : 1 ≤ digitsValue [c] := by
    have hvalue : digitsValue ([] ++ [c]) = 10 * digitsValue [] + (c.toNat - '0'.toNat) :=
      digitsValue_concat [] c
    have hzero : '0'.toNat = 48 := rfl
    have hne : c.toNat ≠ 48 := fun h => hc (Char.toNat_inj.mp (h.trans hzero.symm))
    rw [List.nil_append] at hvalue
    omega
  rw [hcons, ← List.singleton_append, digitsValue_append]
  exact Nat.le_add_right_of_le (Nat.le_mul_of_pos_left _ hfirst)

/-- How many digits are shown from the first on that is not zero. -/
theorem length_shown (count : ℕ) (hlow : 10 ^ (count - 1) ≤ digitsValue digits)
    (hhigh : digitsValue digits < 10 ^ count) :
    (digits.dropWhile (· = '0')).length = count := by
  have hsplit := List.takeWhile_append_dropWhile (p := fun c => decide (c = '0')) (l := digits)
  have hzeros : digits.takeWhile (· = '0') =
      List.replicate (digits.takeWhile (· = '0')).length '0' :=
    List.eq_replicate_of_mem fun c hc => by simpa using List.mem_takeWhile_imp hc
  -- Zeros in front do not count, so what is shown denotes the same number.
  have hvalue : digitsValue (digits.dropWhile (· = '0')) = digitsValue digits := by
    rw [← digitsValue_zeros_append (digits.takeWhile (· = '0')).length, ← hzeros, hsplit]
  have hshown : ∀ c ∈ digits.dropWhile (· = '0'), c.isDigit = true :=
    fun c hc => hdigits c ((List.dropWhile_suffix _).subset hc)
  have hlt := digitsValue_lt _ hshown
  rw [hvalue] at hlt
  have hcount := (Nat.pow_lt_pow_iff_right (by decide)).mp (hlow.trans_lt hlt)
  rcases hcons : digits.dropWhile (· = '0') with _ | ⟨c, rest⟩
  · rw [hcons] at hcount
    cases hcount
  · have hc : c ≠ '0' := by
      intro h
      have hne : digits.dropWhile (· = '0') ≠ [] := hcons ▸ List.cons_ne_nil _ _
      have hhead := List.head_dropWhile_not (fun c => decide (c = '0')) hne
      simp [hcons, h] at hhead
    have hle := le_digitsValue _ hshown c rest hcons hc
    rw [hvalue] at hle
    have hrest := (Nat.pow_lt_pow_iff_right (by decide)).mp (hle.trans_lt hhigh)
    rw [hcons, List.length_cons] at hcount
    rw [List.length_cons]
    omega

end Digits

end Metrology.Decimal
