import Metrology.Proofs.Decimal.Significant
import Metrology.Proofs.Decimal.Written
import Metrology.Proofs.Report.Reading
import Metrology.Proofs.Scalar.Rational

/-!
# One number in either notation

A number in a report is rounded to significant digits, and its size decides whether they are
written with a power of ten. With one, the digits are those that rounding has given. Without
one, the number is rounded once more, to a count of decimals that the power of ten of the
rounded number tells. Both times it is rounded at the same place, unless the first time has
carried it up to the next power of ten. Then the second place is one further up; but there
the number is even closer to that power, so it is carried up to it again.

So whichever notation is chosen, a text is read as the number that it was written for,
rounded to the significant digits, and it shows exactly that many of them.

## Main definitions

* `Numeral.value?`: The number that a numeral denotes.
* `Notation.shownDigits`: The digits that a text shows.
* `Notation.Shows`: Texts of digits and a power of ten, with what they denote.

## Theorems

* `Notation.significant_spec`: Both roundings give the same digits.
* `Notation.shows_fixed`, `Notation.shows_exponent`: The two notations.
* `Notation.read?_mantissa`, `Notation.Shows.reads`: What is read in a text.
* `Notation.toPrecision_reads`: Quotients with a sign.
* `Notation.toPrecision_rounded`: Doubles.
-/

namespace Metrology

/-- The number that a numeral denotes, if it is finite. -/
def Numeral.value? : Numeral → Option ℚ
  | .finite negative d => some (if negative then -d.toRat else d.toRat)
  | _ => none

namespace Notation

open Decimal (digitsValue roundAt roundEven roundTo digitPlace)

section Rounding

/-- The digits of a number as one whole number, and the place of the first of them. Rounding
    at the place that these tell for the last digit gives the digits again, also where the
    number was rounded up to the next power of ten. -/
theorem significant_spec (num den digits : ℕ) (hnum : 0 < num) (hden : 0 < den)
    (hdigits : 1 ≤ digits) (coefficient : ℕ) (exponent : ℤ)
    (h : significant num den digits = (coefficient, exponent)) :
    10 ^ (digits - 1) ≤ coefficient ∧ coefficient < 10 ^ digits ∧
      (coefficient : ℚ) * 10 ^ (exponent - digits + 1) = roundTo digits ((num : ℚ) / den) ∧
      roundAt num den (exponent - digits + 1) = coefficient := by
  have hpositive : (0 : ℚ) < (num : ℚ) / den := by positivity
  have hplace : Decimal.decade num den - digits + 1 = digitPlace digits ((num : ℚ) / den) := by
    rw [digitPlace, abs_of_pos hpositive, Decimal.decade_eq num den hden hnum]
  have hround := Decimal.roundAt_eq num den hden
  have hvalue : roundTo digits ((num : ℚ) / den) =
      roundAt num den (Decimal.decade num den - digits + 1) *
        10 ^ (Decimal.decade num den - digits + 1) := by
    rw [roundTo, ← hplace, ← hround, Int.cast_natCast]
  rcases Decimal.scaled_bounds digits hdigits _ hpositive with ⟨hlow, hhigh⟩
  have hbounds := Decimal.roundEven_bounds _ _ _ hlow hhigh
  rw [← hplace, ← hround, Nat.cast_le, Nat.cast_le] at hbounds
  have hten : 10 ^ digits = 10 * 10 ^ (digits - 1) := by
    rw [← pow_succ', Nat.sub_add_cancel hdigits]
  have hcases : significant num den digits =
      if roundAt num den (Decimal.decade num den - digits + 1) = 10 ^ digits then
        (10 ^ (digits - 1), Decimal.decade num den + 1)
      else (roundAt num den (Decimal.decade num den - digits + 1), Decimal.decade num den) := rfl
  rw [hcases] at h
  split at h
  · next hcarry =>
    cases h
    have hcoarser : Decimal.decade num den + 1 - digits + 1 =
        Decimal.decade num den - digits + 1 + 1 := by omega
    refine ⟨le_rfl, Nat.pow_lt_pow_right (by decide) (by omega), ?_, ?_⟩
    · rw [hvalue, hcarry, hten, hcoarser, zpow_add₀ (by norm_num), zpow_one]
      push_cast
      ring
    · -- The number is as close to the power of ten in units of ten.
      have hrounded := hround (Decimal.decade num den - digits + 1)
      rw [hcarry, hten, Nat.cast_mul, Nat.cast_ofNat] at hrounded
      have hagain := Decimal.roundEven_ten _ _ hrounded.symm
      rw [div_div, ← zpow_add_one₀ (by norm_num), ← hcoarser, ← hround, Nat.cast_inj] at hagain
      exact hagain
  · next hfits =>
    cases h
    exact ⟨hbounds.1, lt_of_le_of_ne hbounds.2 hfits, hvalue.symm, rfl⟩

end Rounding

section Texts

/-- The digits of a text in front of its power of ten, from the first on that is not zero. -/
def shownDigits (text : String) : List Char :=
  ((before 'e' text.toList).filter Char.isDigit).dropWhile (· = '0')

/-- Digits with a sign and a point, and a power of ten behind them if there is one: the digits
    as one whole number, and the place of the last of them. -/
structure Shows (text : String) (negative : Bool) (coefficient : ℕ) (place : ℤ) : Prop where
  parts : ∃ mantissa tail whole fraction exponent, text = mantissa ++ tail ∧
    IsMantissa mantissa negative whole fraction ∧ digitsValue (whole ++ fraction) = coefficient ∧
    Numeral.exponent? tail.toList = some exponent ∧ exponent - fraction.length = place ∧
    (tail.toList = [] ∨ ∃ rest, tail.toList = 'e' :: rest)

theorem shows_fixed (decimals : ℕ) (negative : Bool) (num den : ℕ) :
    Shows (toFixed decimals (.finite negative num den)) negative
      (roundAt num den (-(decimals : ℤ))) (-(decimals : ℤ)) := by
  rcases toFixed_mantissa decimals negative num den with ⟨whole, fraction, h, hlength, hvalue⟩
  refine ⟨_, "", whole, fraction, 0, String.append_empty.symm, h, hvalue, rfl, ?_, Or.inl rfl⟩
  rw [hlength, zero_sub]

/-- A power of ten with its sign is read back. -/
theorem exponent?_signed (exponent : ℤ) :
    Numeral.exponent? ((if exponent < 0 then "e-" else "e+") ++
      toString exponent.natAbs).toList = some exponent := by
  have htext : (toString exponent.natAbs).toList = Nat.toDigits 10 exponent.natAbs :=
    Nat.toList_repr
  rw [String.toList_append, htext]
  split
  · have hread : Numeral.exponent? ('e' :: '-' :: Nat.toDigits 10 exponent.natAbs) =
        some (-(exponent.natAbs : ℤ)) := by
      rw [Numeral.exponent?, if_pos (Or.inl rfl), Numeral.natural?_toDigits]
      rfl
    refine hread.trans (congrArg some ?_)
    omega
  · have hread : Numeral.exponent? ('e' :: '+' :: Nat.toDigits 10 exponent.natAbs) =
        some (exponent.natAbs : ℤ) := by
      rw [Numeral.exponent?, if_pos (Or.inl rfl), Numeral.natural?_toDigits]
      rfl
    refine hread.trans (congrArg some ?_)
    omega

theorem shows_exponent (negative : Bool) (coefficient : ℕ) (exponent : ℤ) :
    Shows (signText negative ++ exponentText coefficient exponent) negative coefficient
      (exponent - (Decimal.digitCount coefficient - 1 : ℕ)) := by
  rcases pointText_mantissa (Decimal.digitCount coefficient - 1) negative coefficient with
    ⟨whole, fraction, h, hlength, hvalue⟩
  refine ⟨_, _, whole, fraction, exponent, ?_, h, hvalue, exponent?_signed exponent, ?_, ?_⟩
  · rw [exponentText, String.append_assoc, String.append_assoc]
    rfl
  · rw [hlength]
  · refine Or.inr ⟨(if exponent < 0 then '-' else '+') :: (toString exponent.natAbs).toList, ?_⟩
    rw [String.toList_append]
    split <;> rfl

/-- Digits with a point among them begin with one of these. -/
theorem head_pointed (whole fraction : List Char)
    (hdigits : ∀ c ∈ whole ++ fraction, c.isDigit = true)
    (hsome : ¬ (whole = [] ∧ fraction = [])) :
    ∃ c rest, pointed whole fraction = c :: rest ∧ (c.isDigit = true ∨ c = '.') := by
  cases whole with
  | cons c rest =>
      exact ⟨c, _, rfl, Or.inl (hdigits c List.mem_cons_self)⟩
  | nil =>
      have hne : fraction ≠ [] := fun h => hsome ⟨rfl, h⟩
      refine ⟨'.', fraction, ?_, Or.inr rfl⟩
      rw [pointed, if_neg hne, List.nil_append]

/-- Digits with a sign and a point, and a power of ten behind them, are read as a numeral. -/
theorem read?_mantissa (text : String) (negative : Bool) (whole fraction tail : List Char)
    (exponent : ℤ)
    (htext : text.toList = (signText negative).toList ++ pointed whole fraction ++ tail)
    (hdigits : ∀ c ∈ whole ++ fraction, c.isDigit = true)
    (hsome : ¬ (whole = [] ∧ fraction = [])) (hexponent : Numeral.exponent? tail = some exponent) :
    Numeral.read? text = some (.finite negative (.ofDigits whole fraction exponent)) := by
  rcases head_pointed whole fraction hdigits hsome with ⟨c, rest, hhead, hc⟩
  have hunsigned := Numeral.unsigned?_parts whole fraction tail exponent
    (fun c hc => hdigits c (List.mem_append_left _ hc))
    (fun c hc => hdigits c (List.mem_append_right _ hc)) hsome hexponent
  rw [← pointed, hhead, List.cons_append] at hunsigned
  have hmagnitude : ∀ negative, Numeral.magnitude? negative (c :: (rest ++ tail)) =
      some (.finite negative (.ofDigits whole fraction exponent)) := by
    intro negative
    rw [Numeral.magnitude?_digits _ _ _ hc, hunsigned, Option.map_some]
  have hother := Numeral.ne_of_isDigit_or_point c
  rw [List.append_assoc, hhead, List.cons_append, toList_signText] at htext
  rw [Numeral.read?, htext]
  cases negative with
  | true => exact hmagnitude true
  | false =>
      simp only [Bool.false_eq_true, if_false, List.nil_append]
      split
      · next heq => exact absurd (List.cons.inj heq).1 (hother '-' hc (by decide) (by decide))
      · next heq => exact absurd (List.cons.inj heq).1 (hother '+' hc (by decide) (by decide))
      · exact hmagnitude false

/-- What a text with digits shows: it is read as the number, and from the first digit that is
    not zero there are as many as the number has. -/
theorem Shows.reads (text : String) (negative : Bool) (coefficient : ℕ) (place : ℤ)
    (h : Shows text negative coefficient place) (digits : ℕ)
    (hlow : 10 ^ (digits - 1) ≤ coefficient) (hhigh : coefficient < 10 ^ digits) :
    ∃ d : Decimal, Numeral.read? text = some (.finite negative d) ∧
      d.toRat = coefficient * 10 ^ place ∧ (shownDigits text).length = digits := by
  rcases h.parts with ⟨mantissa, tail, whole, fraction, exponent, rfl, hmantissa, hvalue, hexponent,
    rfl, htail⟩
  have hsome : ¬ (whole = [] ∧ fraction = []) := by
    rintro ⟨rfl, rfl⟩
    have hzero : coefficient = 0 := hvalue.symm
    have hpositive := Nat.pow_pos (a := 10) (n := digits - 1) (by decide)
    omega
  refine ⟨.ofDigits whole fraction exponent, ?_, ?_, ?_⟩
  · refine read?_mantissa _ negative whole fraction tail.toList exponent ?_ hmantissa.digits hsome
      hexponent
    rw [String.toList_append, hmantissa.toList_eq]
  · rw [Decimal.ofDigits, Decimal.toRat, hvalue]
  · have hmark := hmantissa.not_mem 'e' (by decide) (by decide) (by decide)
    have hbefore : before 'e' (mantissa ++ tail).toList = mantissa.toList := by
      rw [String.toList_append]
      rcases htail with htail | ⟨rest, htail⟩
      · rw [htail, List.append_nil, before_of_not_mem 'e' _ hmark]
      · rw [htail, before_append 'e' _ _ hmark]
    rw [shownDigits, hbefore, hmantissa.filter_eq]
    exact Decimal.length_shown _ hmantissa.digits digits (hvalue ▸ hlow) (hvalue ▸ hhigh)

/-- A positive number with a sign, rounded to significant digits: in either notation the text
    is read as the rounded number, and it shows that many digits. -/
theorem toPrecision_reads (precision : ℕ) (hlow : 1 ≤ precision) (hhigh : precision ≤ 100)
    (negative : Bool) (num den : ℕ) (hnum : 0 < num) (hden : 0 < den) :
    ∃ d : Decimal, Numeral.read? (toPrecision precision (.finite negative num den)) =
        some (.finite negative d) ∧ d.toRat = roundTo precision ((num : ℚ) / den) ∧
      (shownDigits (toPrecision precision (.finite negative num den))).length = precision := by
  rcases hdigits : significant num den precision with ⟨coefficient, exponent⟩
  rcases significant_spec num den precision hnum hden hlow coefficient exponent hdigits with
    ⟨hleast, hmost, hvalue, hagain⟩
  have hclamped : max 1 (min precision 100) = precision := by omega
  have htext : toPrecision precision (.finite negative num den) =
      if exponent < -6 ∨ (precision : ℤ) ≤ exponent then
        signText negative ++ exponentText coefficient exponent
      else toFixed (precision - 1 - exponent).toNat (.finite negative num den) := by
    rw [toPrecision]
    simp only [hclamped, if_neg hnum.ne', hdigits]
  rw [htext, ← hvalue]
  split
  · have hcount := Decimal.digitCount_eq coefficient precision hlow hleast hmost
    have hshows := shows_exponent negative coefficient exponent
    have hplace : exponent - (Decimal.digitCount coefficient - 1 : ℕ) =
        exponent - precision + 1 := by
      rw [hcount]
      omega
    rw [hplace] at hshows
    exact hshows.reads _ _ _ _ precision hleast hmost
  · next hplain =>
    -- The number is rounded once more, at the place that its digits tell.
    have hshows := shows_fixed (precision - 1 - exponent).toNat negative num den
    have hplace : -((precision - 1 - exponent).toNat : ℤ) = exponent - precision + 1 := by omega
    rw [hplace, hagain] at hshows
    exact hshows.reads _ _ _ _ precision hleast hmost

end Texts

section Doubles

/-- A double that is finite and not zero is a quotient with a sign. -/
theorem ofFloat_eq_finite (x : Float) (hx : Double.toRat x ≠ 0) :
    ∃ negative num den, Exact.ofFloat x = .finite negative num den ∧ 0 < num ∧ 0 < den ∧
      Double.toRat x = if negative then -((num : ℚ) / den) else (num : ℚ) / den := by
  cases hparts : Binary64.ofFloat x with
  | nan => exact absurd (by rw [Double.toRat, hparts]) hx
  | infinite negative => exact absurd (by rw [Double.toRat, hparts]) hx
  | finite negative significand exponent =>
      have hexact : Exact.ofFloat x = .finite negative (significand * 2 ^ exponent.toNat)
          (2 ^ (-exponent).toNat) := by
        rw [Exact.ofFloat, hparts]
      have hscaled := Decimal.scaled_div 2 le_rfl significand 1 (-exponent)
      rw [neg_neg, Nat.one_mul, Nat.cast_one, div_one, zpow_neg, div_inv_eq_mul] at hscaled
      have hvalue : Double.toRat x = if negative then -(significand * 2 ^ exponent : ℚ) else
          significand * 2 ^ exponent := by
        rw [Double.toRat, hparts]
      have hpositive : 0 < significand := by
        by_contra hzero
        rw [Nat.le_zero.mp (Nat.not_lt.mp hzero)] at hvalue
        exact hx (by simpa using hvalue)
      refine ⟨negative, _, _, hexact, Nat.mul_pos hpositive (Nat.pow_pos (by decide)),
        Nat.pow_pos (by decide), ?_⟩
      rw [hscaled, hvalue]
      norm_num

/-- In either notation a double is shown as the number it is, rounded to significant digits:
    the text is read as that number, and from the first digit that is not zero up to a power
    of ten it has as many digits. -/
theorem toPrecision_rounded (x : Float) (hx : Double.toRat x ≠ 0) (precision : ℕ)
    (hlow : 1 ≤ precision) (hhigh : precision ≤ 100) :
    (Numeral.read? (toPrecision precision (Exact.ofFloat x))).bind Numeral.value? =
        some (roundTo precision (Double.toRat x)) ∧
      (shownDigits (toPrecision precision (Exact.ofFloat x))).length = precision := by
  rcases ofFloat_eq_finite x hx with ⟨negative, num, den, hexact, hnum, hden, hvalue⟩
  rcases toPrecision_reads precision hlow hhigh negative num den hnum hden with
    ⟨d, hread, hrounded, hshown⟩
  rw [hexact, hread, hvalue, Option.bind_some, Numeral.value?, hrounded]
  refine ⟨?_, hshown⟩
  cases negative with
  | true => exact congrArg some (Decimal.roundTo_neg _ precision).symm
  | false => rfl

/-- With two digits `9.96` is carried up to ten, which is shown without a power of ten. -/
theorem toPrecision_rounded_carried :
    Double.toRat 9.96 ≠ 0 ∧ toPrecision 2 (Exact.ofFloat 9.96) = "10" ∧
      roundTo 2 (Double.toRat 9.96) = 10 := by
  have hparts : Binary64.ofFloat 9.96 = .finite false 5606981536076268 (-49) := by decide
  have hnonzero : Double.toRat 9.96 ≠ 0 := by
    rw [Double.toRat, hparts]
    norm_num
  have htext : toPrecision 2 (Exact.ofFloat 9.96) = "10" := by decide
  have hrounded := toPrecision_rounded 9.96 hnonzero 2 (by decide) (by decide)
  rw [htext] at hrounded
  have hread : (Numeral.read? "10").bind Numeral.value? = some 10 := by
    have hnumeral : Numeral.read? "10" = some (.finite false ⟨10, 0⟩) := by decide
    rw [hnumeral, Option.bind_some, Numeral.value?, Decimal.toRat]
    norm_num
  exact ⟨hnonzero, htext, Option.some.inj (hrounded.1.symm.trans hread)⟩

end Doubles

end Notation

end Metrology
