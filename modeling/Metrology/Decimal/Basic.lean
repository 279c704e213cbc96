import Metrology.Power

/-!
# Decimal numbers

Every number that a user types is a decimal: digits, perhaps a point, perhaps
a power of ten. This file holds that form as an exact value, together with the
little arithmetic on quotients of natural numbers that reading and writing
numbers needs. Nothing here rounds unless its name says so.

A quotient is kept as its numerator and denominator. Neither is reduced: every
function below depends on the quotient only through comparisons and divisions,
which a common factor does not change.

## Main definitions

* `Decimal`: A non-negative decimal number, `coefficient * 10 ^ exponent`.
* `Decimal.ofDigits`: The decimal that written digits denote.
* `Decimal.decade`: The power of ten of a quotient's first significant digit.
* `Decimal.roundDiv`: A quotient rounded to a whole number, ties to even.
* `Decimal.roundAt`: A quotient rounded to a multiple of a power of ten.

## Theorems

* `Decimal.two_mul_roundDiv_le`: Rounding raises a quotient by at most a half.
* `Decimal.le_two_mul_roundDiv`: Rounding lowers a quotient by at most a half.
-/

namespace Metrology

/-- A non-negative decimal number, `coefficient * 10 ^ exponent`. -/
structure Decimal where
  coefficient : Nat
  exponent : Int := 0
  deriving DecidableEq, Repr, Inhabited

namespace Decimal

/-- The whole number `n`. -/
def ofNat (n : Nat) : Decimal := ⟨n, 0⟩

/-- The number that a list of decimal digits denotes. -/
def digitsValue (digits : List Char) : Nat := Nat.ofDigitChars 10 digits 0

/-- The number written with the digits `whole` before the point, the digits
    `fraction` after it, and the power of ten `exponent`. -/
def ofDigits (whole fraction : List Char) (exponent : Int) : Decimal :=
  ⟨digitsValue (whole ++ fraction), exponent - fraction.length⟩

/-- The numerator of a decimal as a quotient of natural numbers. -/
def numerator (d : Decimal) : Nat := d.coefficient * 10 ^ d.exponent.toNat

/-- The denominator of a decimal as a quotient of natural numbers. -/
def denominator (d : Decimal) : Nat := 10 ^ (-d.exponent).toNat

/-- How many decimal digits `n` is written with; zero has one. -/
def digitCount (n : Nat) : Nat := (Nat.toDigits 10 n).length

/-- The exponent of the first significant digit of a positive quotient: the
    integer `k` with `10 ^ k ≤ num / den < 10 ^ (k + 1)`. The digit counts fix
    it up to one, and a comparison decides. -/
def decade (num den : Nat) : Int :=
  let guess : Int := digitCount num - digitCount den
  if den * 10 ^ guess.toNat ≤ num * 10 ^ (-guess).toNat then guess else guess - 1

/-- The whole number nearest to `num / den`; a half goes to the even
    neighbour. -/
def roundDiv (num den : Nat) : Nat :=
  let quotient := num / den
  let twice := 2 * (num % den)
  if twice < den then quotient
  else if den < twice then quotient + 1
  else if quotient % 2 = 0 then quotient
  else quotient + 1

/-- The coefficient of `num / den` rounded to a multiple of `10 ^ exponent`. -/
def roundAt (num den : Nat) (exponent : Int) : Nat :=
  roundDiv (num * 10 ^ (-exponent).toNat) (den * 10 ^ exponent.toNat)

/-- The same number with no zero at the end of its coefficient. The fuel is
    the count of digits, so it never runs out before the zeros do. -/
def trimZeros (d : Decimal) : Decimal :=
  go (digitCount d.coefficient) d.coefficient d.exponent
where
  go : Nat → Nat → Int → Decimal
    | 0, c, e => ⟨c, e⟩
    | fuel + 1, c, e => if c ≠ 0 ∧ c % 10 = 0 then go fuel (c / 10) (e + 1) else ⟨c, e⟩

theorem two_mul_roundDiv_le (num den : Nat) :
    2 * (roundDiv num den * den) ≤ 2 * num + den := by
  have hsplit := Nat.div_add_mod num den
  have hcomm : den * (num / den) = num / den * den := Nat.mul_comm _ _
  have hsucc : (num / den + 1) * den = num / den * den + den := Nat.succ_mul _ _
  simp only [roundDiv]
  split
  · omega
  · split
    · rw [hsucc]; omega
    · split
      · omega
      · rw [hsucc]; omega

theorem le_two_mul_roundDiv (num den : Nat) (hden : 0 < den) :
    2 * num ≤ 2 * (roundDiv num den * den) + den := by
  have hsplit := Nat.div_add_mod num den
  have hcomm : den * (num / den) = num / den * den := Nat.mul_comm _ _
  have hsucc : (num / den + 1) * den = num / den * den + den := Nat.succ_mul _ _
  have hlt := Nat.mod_lt num hden
  simp only [roundDiv]
  split
  · omega
  · split
    · rw [hsucc]; omega
    · split
      · omega
      · rw [hsucc]; omega

end Decimal

end Metrology
