import Mathlib.Tactic.LinearCombination
import Metrology.Proofs.Report.Reading
import Metrology.Proofs.Scalar.Rational

/-!
# What concise texts say

In a text such as `1.234(56)` the number in parentheses counts units of the last digit
of the mean. The uncertainty is to have a given count of digits there, which fixes the
place of its last digit, so the mean has to end at the same place.

That fails in three ways. With a power of ten, zeros at the end of the mean are left out,
and its last digit moves to the left of where the uncertainty ends. Without one, no
decimals are shown if the place is in front of the point, while the uncertainty is
counted in units of that place. And the number in parentheses has 64 bits. Where none of
this happens, the text says what it should; the doubles are taken for the quotients that
they are, so nothing else is lost on the way.

## Main definitions

* `Notation.lastPlace`: The place of the last digit that is shown of an uncertainty.
* `Notation.roundedUp`: An uncertainty in units of that place.
* `Notation.Faithful`: Texts that say what they should.
* `Notation.Presentable`: Results that can be shown in that notation.

## Theorems

* `Notation.trimFraction_digits`: What trimming does to the digits.
* `Notation.roundAt_close`, `Notation.scaledDigits_close`: Rounding stays within half a unit.
* `Notation.read_concise_plain`, `Notation.read_concise_scaled`: What is read in a text.
* `Notation.faithful_plain`, `Notation.faithful_scaled`: Each of the two notations.
* `Notation.concise_faithful_iff`: Which concise texts say what they should.
-/

namespace Metrology.Notation

open Decimal (digitsValue roundAt)
open Displayable (orderOfMagnitude)

/-- The number that the digits of a text denote. -/
def Reading.mean (r : Reading) : ℚ :=
  (if r.negative then -1 else 1) * r.coefficient * 10 ^ (r.exponent - r.decimals)

/-- The place of the last digit that is shown of an uncertainty, as a power of ten. -/
def lastPlace (uncertainty : ℚ) (digits : ℕ) : ℤ := orderOfMagnitude uncertainty - digits + 1

/-- An uncertainty in units of its last place, rounded up but for a little slack. -/
def roundedUp (uncertainty : ℚ) (digits : ℕ) : ℤ :=
  ⌈uncertainty / 10 ^ lastPlace uncertainty digits * (1 - 10 ^ (-12 : ℤ))⌉

/-- A text that says what it should: its last digit and the number in parentheses count
    units of the last place of the uncertainty, and the mean is rounded there. -/
structure Faithful (text : String) (mean uncertainty : ℚ) (digits : ℕ) : Prop where
  place : (read text).exponent - (read text).decimals = lastPlace uncertainty digits
  uncertain : (read text).uncertain = roundedUp uncertainty digits
  mean : |(read text).mean - mean| ≤ 10 ^ lastPlace uncertainty digits / 2

/-- A mean that is written with a power of ten. -/
def IsScaled (mean : ℚ) : Prop := 3 ≤ orderOfMagnitude mean ∨ orderOfMagnitude mean ≤ -3

/-- A mean divided by its power of ten. -/
def scaledMean (mean : ℚ) : ℚ := mean / 10 ^ orderOfMagnitude mean

/-- How many decimals a mean needs behind its first digit. -/
def scaledDecimals (mean uncertainty : ℚ) (digits : ℕ) : ℕ :=
  (orderOfMagnitude mean - lastPlace uncertainty digits).toNat

/-- The digits of a mean with a power of ten, as one number. -/
def scaledDigits (mean uncertainty : ℚ) (digits : ℕ) : ℕ :=
  roundAt (scaledMean mean).num.natAbs (scaledMean mean).den
    (-(scaledDecimals mean uncertainty digits : ℤ))

/-- Results that the notation can show: the uncertainty in units of its last place fits into
    64 bits; without a power of ten, that place is not in front of the point; with one, the
    mean does not end in a zero that is left out. -/
structure Presentable (mean uncertainty : ℚ) (digits : ℕ) : Prop where
  fits : roundedUp uncertainty digits ≤ 2 ^ 63 - 1
  plain : ¬ IsScaled mean → lastPlace uncertainty digits ≤ 0
  scaled : IsScaled mean → scaledDecimals mean uncertainty digits = 0 ∨
    scaledDigits mean uncertainty digits % 10 ≠ 0

section Trimming

variable {text : String} {negative : Bool} {whole fraction : List Char}

/-- What trimming does to the digits. -/
theorem trimFraction_digits (h : IsMantissa text negative whole fraction) :
    ∃ trimmed zeros, IsMantissa (trimFraction text) negative whole trimmed ∧
      trimmed.length + zeros = fraction.length ∧
      digitsValue (whole ++ trimmed) * 10 ^ zeros = digitsValue (whole ++ fraction) ∧
      (zeros = 0 ↔ fraction.length = 0 ∨ digitsValue (whole ++ fraction) % 10 ≠ 0) := by
  have hsplit := List.rdropWhile_append_rtakeWhile (p := fun c => decide (c = '0')) (l := fraction)
  have hzeros : fraction.rtakeWhile (· = '0') =
      List.replicate (fraction.rtakeWhile (· = '0')).length '0' :=
    List.eq_replicate_of_mem fun c hc => by simpa using List.mem_rtakeWhile_imp hc
  refine ⟨fraction.rdropWhile (· = '0'), (fraction.rtakeWhile (· = '0')).length,
    trimFraction_mantissa h, ?_, ?_, ?_⟩
  · rw [← List.length_append, hsplit]
  · rw [← Decimal.digitsValue_append_zeros, ← hzeros, List.append_assoc, hsplit]
  · rcases List.eq_nil_or_concat' fraction with hempty | ⟨init, last, hlast⟩
    · simp [hempty]
    · have hdigit : last.isDigit = true :=
        h.digits last (by rw [hlast]; exact List.mem_append_right _ (by simp))
      rw [hlast, ← List.append_assoc, ne_eq, Decimal.digitsValue_mod_ten _ _ hdigit,
        List.length_eq_zero_iff, List.rtakeWhile_concat]
      by_cases hc : last = '0' <;> simp [hc]

end Trimming

section Rounding

/-- A whole number nearest to a quotient is at most a half away. -/
theorem roundDiv_close (num den : ℕ) (hden : 0 < den) :
    |(Decimal.roundDiv num den : ℚ) - num / den| ≤ 1 / 2 := by
  have hupper : (2 * (Decimal.roundDiv num den * den) : ℚ) ≤ 2 * num + den := by
    exact_mod_cast Decimal.two_mul_roundDiv_le num den
  have hlower : (2 * num : ℚ) ≤ 2 * (Decimal.roundDiv num den * den) + den := by
    exact_mod_cast Decimal.le_two_mul_roundDiv num den hden
  have hden : (0 : ℚ) < den := by exact_mod_cast hden
  have hsplit : (num : ℚ) = num / den * den := (div_mul_cancel₀ _ hden.ne').symm
  rw [hsplit] at hupper hlower
  rw [abs_le]
  constructor <;> nlinarith

/-- Rounding to a count of decimals changes a quotient by at most half a unit. -/
theorem roundAt_close (x : ℚ) (decimals : ℕ) :
    |(if x < 0 then -1 else 1) * (roundAt x.num.natAbs x.den (-(decimals : ℤ)) : ℚ) *
        10 ^ (-(decimals : ℤ)) - x| ≤ 10 ^ (-(decimals : ℤ)) / 2 := by
  have hround : roundAt x.num.natAbs x.den (-(decimals : ℤ)) =
      Decimal.roundDiv (x.num.natAbs * 10 ^ decimals) x.den := by
    simp [roundAt]
  have hsize : |x| = x.num.natAbs / x.den := by
    rw [← Rat.num_div_den x, abs_div, Nat.abs_cast, Rat.num_div_den, Nat.cast_natAbs, Int.cast_abs]
  generalize hsignDef : (if x < 0 then -1 else 1 : ℚ) = sign
  have hsign : sign * |x| = x := by
    rw [← hsignDef]
    split
    · next hx => rw [abs_of_neg hx, neg_one_mul, neg_neg]
    · next hx => rw [abs_of_nonneg (not_lt.mp hx), one_mul]
  have hunit : |sign| = 1 := by
    rw [← hsignDef]
    split <;> simp
  have hplace : (0 : ℚ) < 10 ^ (-(decimals : ℤ)) := by positivity
  have hinverse : (10 : ℚ) ^ (-(decimals : ℤ)) * (10 ^ decimals : ℕ) = 1 := by
    rw [Nat.cast_pow, Nat.cast_ofNat, zpow_neg, zpow_natCast, inv_mul_cancel₀ (by positivity)]
  have hclose := roundDiv_close (x.num.natAbs * 10 ^ decimals) x.den x.den_pos
  rw [Nat.cast_mul, mul_div_right_comm, ← hsize] at hclose
  rw [hround]
  generalize (Decimal.roundDiv (x.num.natAbs * 10 ^ decimals) x.den : ℚ) = rounded at hclose ⊢
  have hfactor : sign * rounded * 10 ^ (-(decimals : ℤ)) - x =
      sign * 10 ^ (-(decimals : ℤ)) * (rounded - |x| * (10 ^ decimals : ℕ)) := by
    linear_combination (sign * |x|) * hinverse + hsign
  calc |sign * rounded * 10 ^ (-(decimals : ℤ)) - x|
      = 10 ^ (-(decimals : ℤ)) * |rounded - |x| * (10 ^ decimals : ℕ)| := by
        rw [hfactor, abs_mul, abs_mul, hunit, one_mul, abs_of_pos hplace]
    _ ≤ 10 ^ (-(decimals : ℤ)) * (1 / 2) := mul_le_mul_of_nonneg_left hclose hplace.le
    _ = 10 ^ (-(decimals : ℤ)) / 2 := by ring

/-- With its power of ten, the rounded mean is at most half a unit of the last place away. -/
theorem scaledDigits_close (mean uncertainty : ℚ) (digits : ℕ)
    (hdecimals : (scaledDecimals mean uncertainty digits : ℤ) =
      orderOfMagnitude mean - lastPlace uncertainty digits) :
    |(if scaledMean mean < 0 then -1 else 1) * (scaledDigits mean uncertainty digits : ℚ) *
        10 ^ lastPlace uncertainty digits - mean| ≤ 10 ^ lastPlace uncertainty digits / 2 := by
  have hclose := roundAt_close (scaledMean mean) (scaledDecimals mean uncertainty digits)
  rw [← scaledDigits] at hclose
  generalize (if scaledMean mean < 0 then -1 else 1 : ℚ) * scaledDigits mean uncertainty digits =
    signed at hclose ⊢
  have hpower : (0 : ℚ) < 10 ^ orderOfMagnitude mean := by positivity
  have hmean : scaledMean mean * 10 ^ orderOfMagnitude mean = mean :=
    div_mul_cancel₀ _ hpower.ne'
  have hplace : (10 : ℚ) ^ (-(scaledDecimals mean uncertainty digits : ℤ)) *
      10 ^ orderOfMagnitude mean = 10 ^ lastPlace uncertainty digits := by
    rw [← zpow_add₀ (by norm_num), hdecimals]
    congr 1
    omega
  have hfactor : signed * 10 ^ lastPlace uncertainty digits - mean =
      (signed * 10 ^ (-(scaledDecimals mean uncertainty digits : ℤ)) - scaledMean mean) *
        10 ^ orderOfMagnitude mean := by
    rw [sub_mul, hmean, mul_assoc, hplace]
  calc |signed * 10 ^ lastPlace uncertainty digits - mean|
      = |signed * 10 ^ (-(scaledDecimals mean uncertainty digits : ℤ)) - scaledMean mean| *
          10 ^ orderOfMagnitude mean := by
        rw [hfactor, abs_mul, abs_of_pos hpower]
    _ ≤ 10 ^ (-(scaledDecimals mean uncertainty digits : ℤ)) / 2 * 10 ^ orderOfMagnitude mean :=
        mul_le_mul_of_nonneg_right hclose hpower.le
    _ = 10 ^ lastPlace uncertainty digits / 2 := by
        rw [div_mul_eq_mul_div, hplace]

end Rounding

section Uncertainties

variable (uncertainty : ℚ) (digits : ℕ)

/-- The number in parentheses fits into 64 bits, whatever it should be. -/
theorem uncertainDigits_eq (decimals : ℤ) :
    uncertainDigits uncertainty decimals =
      max (-2 ^ 63) (min (2 ^ 63 - 1) ⌈uncertainty * 10 ^ decimals * (1 - 10 ^ (-12 : ℤ))⌉) := by
  have hslack : (Arithmetic.one - Arithmetic.ofDecimal ⟨1, -12⟩ : ℚ) = 1 - 10 ^ (-12 : ℤ) := by
    rw [RationalScalar.one_eq, RationalScalar.ofDecimal_eq, Nat.cast_one, one_mul]
  rw [uncertainDigits, RationalScalar.tenTo_eq, hslack]
  rfl

/-- In its last place an uncertainty has the digits asked for. -/
theorem le_roundedUp (hpositive : 0 < uncertainty) :
    (10 : ℚ) ^ ((digits : ℤ) - 1) * (1 - 10 ^ (-12 : ℤ)) ≤ roundedUp uncertainty digits := by
  have hslack : (0 : ℚ) ≤ 1 - 10 ^ (-12 : ℤ) := by norm_num
  have hbelow := (RationalScalar.orderOfMagnitude_bounds uncertainty hpositive.ne').1
  rw [abs_of_pos hpositive] at hbelow
  have hplace : (digits : ℤ) - 1 + lastPlace uncertainty digits = orderOfMagnitude uncertainty := by
    rw [lastPlace]
    omega
  have hquotient : (10 : ℚ) ^ ((digits : ℤ) - 1) ≤
      uncertainty / 10 ^ lastPlace uncertainty digits := by
    rwa [le_div_iff₀ (by positivity), ← zpow_add₀ (by norm_num), hplace]
  exact (mul_le_mul_of_nonneg_right hquotient hslack).trans (Int.le_ceil _)

/-- With 64 bits there is room for nineteen digits. -/
theorem digits_le (hpositive : 0 < uncertainty)
    (hfits : roundedUp uncertainty digits ≤ 2 ^ 63 - 1) : digits ≤ 19 := by
  by_contra hdigits
  have hfits : (roundedUp uncertainty digits : ℚ) ≤ 2 ^ 63 - 1 := by exact_mod_cast hfits
  have hpower : (10 : ℚ) ^ (19 : ℤ) ≤ 10 ^ ((digits : ℤ) - 1) :=
    zpow_le_zpow_right₀ (by norm_num) (by omega)
  have hbound := le_roundedUp uncertainty digits hpositive
  norm_num at hpower hbound hfits
  linarith

end Uncertainties

section Concise

variable (mean uncertainty : ℚ) (digits : ℕ)

variable (hpositive : 0 < uncertainty)
  (horder : orderOfMagnitude uncertainty ≤ orderOfMagnitude mean) (decimals : ℤ)
  (hdecimals : decimals = word (word (max digits 1) - orderOfMagnitude uncertainty - 1))

include hpositive horder hdecimals

/-- The text of a positive uncertainty that is not of a higher order than the mean. -/
theorem concise_eq :
    concise mean uncertainty digits =
      if 3 ≤ orderOfMagnitude mean ∨ orderOfMagnitude mean ≤ -3 then
        trimFraction (toFixed (word (orderOfMagnitude mean + decimals)).toNat
            (Displayable.exact (scaledMean mean))) ++
          ("(" ++ toString (uncertainDigits uncertainty decimals) ++ ")") ++ "e" ++
            toString (orderOfMagnitude mean)
      else toFixed decimals.toNat (Displayable.exact mean) ++
        ("(" ++ toString (uncertainDigits uncertainty decimals) ++ ")") := by
  have hless : Arithmetic.less Arithmetic.zero uncertainty = true :=
    (RationalScalar.less_iff _ _).mpr (by rwa [RationalScalar.zero_eq])
  have hfinite : ∀ x : ℚ, isFinite x = true := fun _ => rfl
  subst hdecimals
  rw [concise, hfinite, hfinite, hless]
  simp only [Bool.and_self, Bool.not_true, Bool.or_self, Bool.false_eq_true, if_false,
    if_neg (not_lt.mpr horder), RationalScalar.tenTo_eq]
  rfl

/-- What is read without a power of ten. -/
theorem read_concise_plain (hplain : ¬ IsScaled mean) :
    read (concise mean uncertainty digits) =
      ⟨decide (mean < 0), roundAt mean.num.natAbs mean.den (-(decimals.toNat : ℤ)), decimals.toNat,
        uncertainDigits uncertainty decimals, 0⟩ := by
  rcases toFixed_mantissa decimals.toNat (decide (mean < 0)) mean.num.natAbs mean.den with
    ⟨whole, fraction, h, hlength, hvalue⟩
  have hplain : ¬ (3 ≤ orderOfMagnitude mean ∨ orderOfMagnitude mean ≤ -3) := hplain
  rw [concise_eq mean uncertainty digits hpositive horder decimals hdecimals, if_neg hplain]
  exact (read_plain h _).trans (by rw [hlength, hvalue])

/-- What is read with a power of ten: zeros at the end of the mean are missing. -/
theorem read_concise_scaled (hscaled : IsScaled mean) (places : ℕ)
    (hplaces : places = (word (orderOfMagnitude mean + decimals)).toNat) (rounded : ℕ)
    (hrounded : rounded = roundAt (scaledMean mean).num.natAbs (scaledMean mean).den
      (-(places : ℤ))) :
    ∃ coefficient shown zeros, read (concise mean uncertainty digits) =
        ⟨decide (scaledMean mean < 0), coefficient, shown, uncertainDigits uncertainty decimals,
          orderOfMagnitude mean⟩ ∧
      shown + zeros = places ∧ coefficient * 10 ^ zeros = rounded ∧
      (zeros = 0 ↔ places = 0 ∨ rounded % 10 ≠ 0) := by
  subst hplaces hrounded
  rcases toFixed_mantissa (word (orderOfMagnitude mean + decimals)).toNat
    (decide (scaledMean mean < 0)) (scaledMean mean).num.natAbs (scaledMean mean).den with
    ⟨whole, fraction, h, hlength, hvalue⟩
  rcases trimFraction_digits h with ⟨trimmed, zeros, htrimmed, hshown, hdigits, hzeros⟩
  have hscaled : 3 ≤ orderOfMagnitude mean ∨ orderOfMagnitude mean ≤ -3 := hscaled
  refine ⟨digitsValue (whole ++ trimmed), trimmed.length, zeros, ?_, hshown.trans hlength,
    hdigits.trans hvalue, ?_⟩
  · rw [concise_eq mean uncertainty digits hpositive horder decimals hdecimals, if_pos hscaled]
    exact read_scaled htrimmed _ _
  · rw [hzeros, hlength, hvalue]

end Concise

section Faithfulness

variable (mean uncertainty : ℚ) (digits : ℕ) (hpositive : 0 < uncertainty)
  (horder : orderOfMagnitude uncertainty ≤ orderOfMagnitude mean)

theorem word_eq (n : ℤ) (hlow : -2 ^ 31 ≤ n) (hhigh : n < 2 ^ 31) : word n = n := by
  rw [word, Int.bmod_def]
  split <;> omega

include hpositive horder in
/-- The number in parentheses is moved into 64 bits, so what fits is shown. -/
theorem fits_of_faithful (h : Faithful (concise mean uncertainty digits) mean uncertainty digits) :
    roundedUp uncertainty digits ≤ 2 ^ 63 - 1 := by
  have hbound : ∀ decimals, uncertainDigits uncertainty decimals ≤ 2 ^ 63 - 1 := by
    intro decimals
    rw [uncertainDigits_eq]
    omega
  rw [← h.uncertain]
  by_cases hscaled : IsScaled mean
  · rcases read_concise_scaled mean uncertainty digits hpositive horder _ rfl hscaled _ rfl _
      rfl with ⟨coefficient, shown, zeros, hread, -⟩
    rw [hread]
    exact hbound _
  · rw [read_concise_plain mean uncertainty digits hpositive horder _ rfl hscaled]
    exact hbound _

variable (hdigits : 1 ≤ digits) (hlow : -324 ≤ orderOfMagnitude uncertainty)
  (hhigh : orderOfMagnitude mean ≤ 308) (hfits : roundedUp uncertainty digits ≤ 2 ^ 63 - 1)

include hpositive hfits in
/-- The number in parentheses counts units of the last place. -/
theorem uncertain_eq : uncertainDigits uncertainty (-lastPlace uncertainty digits) =
    roundedUp uncertainty digits := by
  have hnonneg : (0 : ℚ) ≤ roundedUp uncertainty digits := by
    refine le_trans ?_ (le_roundedUp uncertainty digits hpositive)
    have hslack : (0 : ℚ) ≤ 1 - 10 ^ (-12 : ℤ) := by norm_num
    positivity
  have hnonneg : 0 ≤ roundedUp uncertainty digits := by exact_mod_cast hnonneg
  have hceiling : ⌈uncertainty * 10 ^ (-lastPlace uncertainty digits) * (1 - 10 ^ (-12 : ℤ))⌉ =
      roundedUp uncertainty digits := by
    rw [roundedUp, zpow_neg, ← div_eq_mul_inv]
  rw [uncertainDigits_eq, hceiling]
  omega

include hpositive horder hdigits hlow hhigh hfits

/-- The decimals bring the last place to the end. -/
theorem decimals_eq : -lastPlace uncertainty digits =
    word (word (max digits 1) - orderOfMagnitude uncertainty - 1) := by
  have hcount := digits_le uncertainty digits hpositive hfits
  -- With nineteen digits at most, nothing wraps around.
  have hmax : max (digits : ℤ) 1 = digits := by omega
  rw [hmax, word_eq digits (by omega) (by omega), word_eq _ (by omega) (by omega), lastPlace]
  omega

/-- Without a power of ten, a text says what it should unless the last place is in front of
    the point. -/
theorem faithful_plain (hplain : ¬ IsScaled mean) :
    Faithful (concise mean uncertainty digits) mean uncertainty digits ↔
      lastPlace uncertainty digits ≤ 0 := by
  have hread := read_concise_plain mean uncertainty digits hpositive horder _
    (decimals_eq mean uncertainty digits hpositive horder hdigits hlow hhigh hfits) hplain
  constructor
  · -- There are no negative counts of decimals.
    intro h
    have hplace := h.place
    rw [hread] at hplace
    simp only at hplace
    omega
  · intro hfront
    have hplace : lastPlace uncertainty digits =
        -((-lastPlace uncertainty digits).toNat : ℤ) := by omega
    refine ⟨?_, ?_, ?_⟩
    · rw [hread]
      simp only
      omega
    · rw [hread]
      exact uncertain_eq uncertainty digits hpositive hfits
    · have hclose := roundAt_close mean (-lastPlace uncertainty digits).toNat
      rw [← hplace] at hclose
      rw [hread, Reading.mean]
      simp only [decide_eq_true_eq, zero_sub]
      rwa [← hplace]

/-- With a power of ten, a text says what it should unless zeros are left out. -/
theorem faithful_scaled (hscaled : IsScaled mean) :
    Faithful (concise mean uncertainty digits) mean uncertainty digits ↔
      scaledDecimals mean uncertainty digits = 0 ∨
        scaledDigits mean uncertainty digits % 10 ≠ 0 := by
  have hcount := digits_le uncertainty digits hpositive hfits
  have hplaces : scaledDecimals mean uncertainty digits =
      (word (orderOfMagnitude mean + -lastPlace uncertainty digits)).toNat := by
    rw [word_eq _ (by rw [lastPlace]; omega) (by rw [lastPlace]; omega)]
    rfl
  rcases read_concise_scaled mean uncertainty digits hpositive horder _
    (decimals_eq mean uncertainty digits hpositive horder hdigits hlow hhigh hfits) hscaled
    (scaledDecimals mean uncertainty digits) hplaces (scaledDigits mean uncertainty digits) rfl with
    ⟨coefficient, shown, zeros, hread, hshown, hvalue, hzeros⟩
  have hdecimals : (scaledDecimals mean uncertainty digits : ℤ) =
      orderOfMagnitude mean - lastPlace uncertainty digits := by
    rw [scaledDecimals, lastPlace]
    omega
  rw [← hzeros]
  constructor
  · -- Each zero that is left out moves the last digit by one place.
    intro h
    have hplace := h.place
    rw [hread] at hplace
    simp only at hplace
    omega
  · intro hkept
    subst hkept
    rw [pow_zero, mul_one] at hvalue
    refine ⟨?_, ?_, ?_⟩
    · rw [hread]
      simp only
      omega
    · rw [hread]
      exact uncertain_eq uncertainty digits hpositive hfits
    · have hlast : orderOfMagnitude mean - (shown : ℤ) = lastPlace uncertainty digits := by omega
      rw [hread, Reading.mean]
      simp only [decide_eq_true_eq]
      rw [hvalue, hlast]
      exact scaledDigits_close mean uncertainty digits hdecimals

end Faithfulness

/-- A concise text says what it should where the notation can show the result. -/
theorem concise_faithful_iff (mean uncertainty : Float) (digits : ℕ) (hdigits : 1 ≤ digits)
    (hpositive : 0 < Double.toRat uncertainty)
    (horder : orderOfMagnitude (Double.toRat uncertainty) ≤ orderOfMagnitude (Double.toRat mean)) :
    Faithful (concise (Double.toRat mean) (Double.toRat uncertainty) digits) (Double.toRat mean)
        (Double.toRat uncertainty) digits ↔
      Presentable (Double.toRat mean) (Double.toRat uncertainty) digits := by
  have hlow := (Double.orderOfMagnitude_toRat uncertainty).1
  have hhigh := (Double.orderOfMagnitude_toRat mean).2
  constructor
  · intro h
    have hfits := fits_of_faithful _ _ digits hpositive horder h
    exact ⟨hfits, fun hplain => (faithful_plain _ _ digits hpositive horder hdigits hlow hhigh hfits
      hplain).mp h, fun hscaled => (faithful_scaled _ _ digits hpositive horder hdigits hlow hhigh
      hfits hscaled).mp h⟩
  · intro h
    by_cases hscaled : IsScaled (Double.toRat mean)
    · exact (faithful_scaled _ _ digits hpositive horder hdigits hlow hhigh h.fits hscaled).mpr
        (h.scaled hscaled)
    · exact (faithful_plain _ _ digits hpositive horder hdigits hlow hhigh h.fits hscaled).mpr
        (h.plain hscaled)

/-- Two digits of the uncertainty end at the first decimal of 12000, but the zeros that lead
    there are left out. -/
theorem concise_faithful_iff_leftOut :
    0 < Double.toRat 1.2 ∧
      orderOfMagnitude (Double.toRat 1.2) ≤ orderOfMagnitude (Double.toRat 12000) ∧
      concise (Double.toRat 12000) (Double.toRat 1.2) 2 = "1.2(12)e4" ∧
      ¬ Faithful (concise (Double.toRat 12000) (Double.toRat 1.2) 2) (Double.toRat 12000)
        (Double.toRat 1.2) 2 := by
  have hpositive : 0 < Double.toRat 1.2 := by decide +kernel
  have horder : orderOfMagnitude (Double.toRat 1.2) ≤ orderOfMagnitude (Double.toRat 12000) := by
    decide +kernel
  have hzeros : ¬ (scaledDecimals (Double.toRat 12000) (Double.toRat 1.2) 2 = 0 ∨
      scaledDigits (Double.toRat 12000) (Double.toRat 1.2) 2 % 10 ≠ 0) := by
    decide +kernel
  have hscaled : IsScaled (Double.toRat 12000) := Or.inl (by decide +kernel)
  refine ⟨hpositive, horder, by decide +kernel, fun h => hzeros ?_⟩
  exact ((concise_faithful_iff 12000 1.2 2 (by decide) hpositive horder).mp h).scaled hscaled

end Metrology.Notation
