import Mathlib
import Metrology.Expr.Canonical
import Metrology.Proofs.Decimal.Written
import Metrology.Scalar.Double

/-!
# The literals of formulas as doubles

A literal of a formula becomes the double that is nearest to it. Such a double has no
sign and is no undefined one, so its encoding is a number up to the one of infinity.
That number, and with it the double, is told by the text: the shortest decimal is
written as a numeral, and the numeral is read as the double that it was found for.
Only the text of infinity is a word.

## Main definitions

* `Double.encoded`: The double with an encoding.
* `Double.IsLiteral`: A double that a literal of a formula can become.
* `Double.IsUnsigned`: A finite double without a sign.

## Theorems

* `Double.pack_unpack`: Whatever is no undefined double keeps its encoding.
* `Double.toBits_encoded`: The encoding of a double that has no sign is read back.
* `Double.isLiteral_toFloat`: Every decimal becomes such a double.
* `Double.toFloat_of_holds`: A decimal in the interval of a double is read as the double.
* `Double.literal_encoded`: The text of a finite double is read as the double.
* `Double.literalText_cases`: The text of a literal is `inf` or tells the double.
* `Double.literalText_of_isUnsigned`: The text of a finite literal is read as the literal.
-/

namespace Metrology.Double

open Arithmetic (less zero)
open Binary64 (infinityBits nearestBits leastNormal leastExponent)
open Float.Model Float.Model.UnpackedFloat

section Encoding

variable (bits : BitVec 64)

/-- The three fields of an encoding. -/
abbrev signField : BitVec 1 := @unpackSign Format.binary64 bits

abbrev exponentField : BitVec 11 := @unpackExponent Format.binary64 bits

abbrev fractionField : BitVec 52 := @unpackMantissa Format.binary64 bits

theorem toNat_fractionField : (fractionField bits).toNat = bits.toNat % 2 ^ 52 := by
  simp [unpackMantissa]

theorem toNat_exponentField : (exponentField bits).toNat = bits.toNat / 2 ^ 52 % 2 ^ 11 := by
  simp [unpackExponent, Nat.shiftRight_eq_div_pow]

theorem toNat_signField : (signField bits).toNat = bits.toNat / 2 ^ 63 := by
  have hlt := bits.isLt
  simp [unpackSign, Nat.shiftRight_eq_div_pow]
  omega

theorem toNat_packComponents (s : Sign) (e : BitVec 11) (m : BitVec 52) :
    (packComponents Format.binary64 s e m).toNat =
      s.toBitVec.toNat * 2 ^ 63 + e.toNat * 2 ^ 52 + m.toNat := by
  rw [packComponents, BitVec.toNat_append, ← Nat.shiftLeft_add_eq_or_of_lt m.isLt,
    BitVec.toNat_append, ← Nat.shiftLeft_add_eq_or_of_lt e.isLt, Nat.shiftLeft_eq, Nat.shiftLeft_eq]
  ring

/-- An encoding is made up of its fields. -/
theorem packComponents_fields : packComponents Format.binary64 (Sign.ofBitVec (signField bits))
    (exponentField bits) (fractionField bits) = bits := by
  have hsign : (Sign.ofBitVec (signField bits)).toBitVec = signField bits := by
    generalize signField bits = s
    revert s
    decide
  have hlt := bits.isLt
  apply BitVec.eq_of_toNat_eq
  rw [toNat_packComponents, hsign, toNat_fractionField, toNat_exponentField, toNat_signField]
  omega

theorem pack_subnormal (s : Sign) (m : BitVec 52) (hm : 0 < m.toNat) :
    UnpackedFloat.pack Format.binary64 (.finite s m.toNat (-1074) hm) =
      packComponents Format.binary64 s 0#11 m := by
  have hlog : m.toNat.log2 < 52 := (Nat.log2_lt hm.ne').mpr m.isLt
  have hbits : Format.binary64.mantissaBits = 53 := rfl
  simp only [UnpackedFloat.pack]
  rw [if_neg (by decide), if_neg (by omega), BitVec.ofNat_toNat]
  rfl

theorem pack_normal (s : Sign) (e : BitVec 11) (m : BitVec 52) (hm : 0 < (1#1 ++ m).toNat)
    (hfirst : e ≠ 0#11) (hlast : e ≠ -1#11) :
    UnpackedFloat.pack Format.binary64 (.finite s (1#1 ++ m).toNat (e.toNat - 1075) hm) =
      packComponents Format.binary64 s e m := by
  have hsum : (1#1 ++ m).toNat = 2 ^ 52 + m.toNat := by
    rw [BitVec.toNat_append, ← Nat.shiftLeft_add_eq_or_of_lt m.isLt, Nat.shiftLeft_eq]
    rfl
  have hmlt := m.isLt
  have hlog : (1#1 ++ m).toNat.log2 = 52 := by
    rw [hsum]
    exact (Nat.log2_eq_iff (by omega)).mpr ⟨by omega, by omega⟩
  have hbits : Format.binary64.mantissaBits = 53 := rfl
  have hbias : (Format.binary64.exponentBias : ℤ) = 1023 := rfl
  have hpos : e.toNat ≠ 0 := fun h => hfirst (BitVec.eq_of_toNat_eq h)
  have hend : e.toNat ≠ 2047 := fun h => hlast (BitVec.eq_of_toNat_eq h)
  have hlt := e.isLt
  simp only [UnpackedFloat.pack]
  rw [hlog, hbits, hbias, if_neg (by omega), if_pos rfl]
  congr 1
  · apply BitVec.eq_of_toNat_eq
    rw [BitVec.toNat_ofNat]
    have hplace : ((e.toNat : ℤ) - 1075 + 1023 + (52 : ℕ)).toNat = e.toNat := by omega
    exact (congrArg (· % 2 ^ 11) hplace).trans (Nat.mod_eq_of_lt hlt)
  · apply BitVec.eq_of_toNat_eq
    rw [BitVec.toNat_ofNat, hsum]
    omega

/-- Whatever is no undefined double keeps its encoding. -/
theorem pack_unpack (h : exponentField bits = -1#11 → fractionField bits = 0#52) :
    UnpackedFloat.pack Format.binary64 (UnpackedFloat.unpack Format.binary64 bits) = bits := by
  have hfields := packComponents_fields bits
  -- Infinity, zero, a subnormal and a normal double: each is packed from the fields it has.
  simp only [signField, exponentField, fractionField] at h hfields
  simp only [UnpackedFloat.unpack]
  split
  · next hexponent =>
    rw [if_pos (h hexponent)]
    rw [hexponent, h hexponent] at hfields
    exact hfields
  · next hexponent =>
    split
    · next hzero =>
      rw [hzero] at hfields ⊢
      split
      · next hfraction =>
        rw [hfraction] at hfields
        exact hfields
      · exact (pack_subnormal _ _ _).trans hfields
    · next hnormal => exact (pack_normal _ _ _ _ hnormal hexponent).trans hfields

/-- Without a sign a double is not less than zero. -/
theorem lt_zero_of_signField (h : signField bits = 0#1) :
    (UnpackedFloat.unpack Format.binary64 bits).lt (.zero .positive) = false := by
  have hsign : Sign.ofBitVec (signField bits) = .positive := by
    rw [h]
    rfl
  simp only [UnpackedFloat.unpack, hsign]
  split
  · split <;> rfl
  · split
    · split <;> rfl
    · rfl

end Encoding

/-- The double with an encoding. -/
def encoded (bits : ℕ) : Float := Float.ofBits (UInt64.ofNat bits)

/-- The encoding of a double that has no sign and is not undefined is read back. -/
theorem toBits_encoded (bits : ℕ) (h : bits ≤ infinityBits) :
    (encoded bits).toBits.toBitVec.toNat = bits := by
  rw [infinityBits] at h
  have hnat : (UInt64.ofNat bits).toBitVec.toNat = bits := by
    rw [UInt64.toNat_toBitVec, UInt64.toNat_ofNat', Nat.mod_eq_of_lt (by omega)]
  -- The largest exponent belongs to infinity alone, as no greater encoding is allowed.
  have hdefined : exponentField (UInt64.ofNat bits).toBitVec = -1#11 →
      fractionField (UInt64.ofNat bits).toBitVec = 0#52 := by
    intro hexponent
    have hfield := congrArg BitVec.toNat hexponent
    have hlast : (-1#11).toNat = 2047 := by decide
    rw [toNat_exponentField, hnat, hlast] at hfield
    apply BitVec.eq_of_toNat_eq
    rw [toNat_fractionField, hnat, BitVec.toNat_ofNat]
    omega
  have hbits : (encoded bits).toBits.toBitVec = (UInt64.ofNat bits).toBitVec :=
    pack_unpack _ hdefined
  rw [hbits, hnat]

theorem ofFloat_encoded (bits : ℕ) (h : bits ≤ infinityBits) :
    Binary64.ofFloat (encoded bits) = Binary64.ofBits bits := by
  rw [Binary64.ofFloat, ← UInt64.toNat_toBitVec, toBits_encoded bits h]

theorem less_encoded (bits : ℕ) (h : bits ≤ infinityBits) : less (encoded bits) zero = false := by
  have hzero : (zero : Float).toModel.unpack = .zero .positive := rfl
  -- The comparison of doubles is the one of what they are unpacked to.
  have hless : ∀ x : Float, less x zero = x.toModel.unpack.lt (zero : Float).toModel.unpack := by
    intro x
    cases hlt : x.toModel.unpack.lt (zero : Float).toModel.unpack with
    | false =>
        refine decide_eq_false (fun h => ?_)
        have h : x.toModel < (zero : Float).toModel := of_decide_eq_true h
        cases hlt.symm.trans h
    | true =>
        have h : x.toModel < (zero : Float).toModel := hlt
        exact decide_eq_true (decide_eq_true h)
  rw [hless, hzero]
  refine lt_zero_of_signField _ (BitVec.eq_of_toNat_eq ?_)
  have hbits := toBits_encoded bits h
  rw [infinityBits] at h
  rw [toNat_signField]
  change (encoded bits).toBits.toBitVec.toNat / 2 ^ 63 = 0
  omega

/-- A double that a literal of a formula can become. -/
def IsLiteral (x : Float) : Prop := ∃ bits ≤ infinityBits, x = encoded bits

theorem isLiteral_toFloat (d : Decimal) : IsLiteral d.toFloat := by
  rw [Decimal.toFloat]
  split
  · exact ⟨0, Nat.zero_le _, by decide⟩
  · split
    · exact ⟨_, le_rfl, rfl⟩
    · refine ⟨_, ?_, rfl⟩
      rw [nearestBits]
      split
      · exact Nat.zero_le _
      · exact min_le_left _ _

/-- A finite encoding is taken apart into a significand and an exponent. -/
theorem ofBits_finite (bits : ℕ) (h : bits < infinityBits) :
    ∃ significand exponent, Binary64.ofBits bits = .finite false significand exponent ∧
      bits = (exponent - leastExponent).toNat * leastNormal + significand ∧
      (bits = 0 ∧ significand = 0 ∨ Binary64.IsPositive significand exponent) := by
  rw [infinityBits] at h
  have hsign : decide (2 ^ 63 ≤ bits) = false := decide_eq_false (by omega)
  have hfield : bits / 2 ^ 52 % 2 ^ 11 ≠ 2047 := by omega
  simp only [Binary64.ofBits, hsign, if_neg hfield, leastExponent, leastNormal]
  split
  · refine ⟨_, _, rfl, by omega, ?_⟩
    by_cases hzero : bits % 2 ^ 52 = 0
    · exact .inl ⟨by omega, hzero⟩
    · exact .inr ⟨by omega, by omega, le_rfl, .inr rfl⟩
  · exact ⟨_, _, rfl, by omega, .inr ⟨by omega, by omega, by omega, .inl (by omega)⟩⟩

/-- The number of a positive decimal, by the place of its first digit. -/
theorem toRat_bounds (d : Decimal) (hpos : 0 < d.coefficient) :
    (10 : ℚ) ^ ((Decimal.digitCount d.coefficient : ℤ) + d.exponent - 1) ≤ d.toRat ∧
      d.toRat < (10 : ℚ) ^ ((Decimal.digitCount d.coefficient : ℤ) + d.exponent) := by
  have hcount : 0 < Decimal.digitCount d.coefficient :=
    List.length_pos_iff.mpr Nat.toDigits_ne_nil
  rcases Decimal.digitCount_bounds d.coefficient hpos with ⟨hlow, hhigh⟩
  rw [Nat.sub_add_cancel hcount] at hhigh
  have hscale : (0 : ℚ) < 10 ^ d.exponent := by positivity
  have hplace : ((Decimal.digitCount d.coefficient : ℤ) + d.exponent - 1) =
      ((Decimal.digitCount d.coefficient - 1 : ℕ) : ℤ) + d.exponent := by omega
  rw [Decimal.toRat, hplace, zpow_add₀ (by norm_num), zpow_add₀ (by norm_num), zpow_natCast,
    zpow_natCast]
  constructor
  · exact mul_le_mul_of_nonneg_right (by exact_mod_cast hlow) hscale.le
  · exact mul_lt_mul_of_pos_right (by exact_mod_cast hhigh) hscale

/-- What rounds to a positive double is neither very small nor very large. -/
theorem bounds_of_holds (significand : ℕ) (exponent : ℤ)
    (hpositive : Binary64.IsPositive significand exponent) (x : ℚ)
    (hholds : (Rounds.ofBinary significand exponent).Holds x)
    (hfinite : (exponent - leastExponent).toNat * leastNormal + significand < infinityBits) :
    (2 : ℚ) ^ (-1075 : ℤ) ≤ x ∧ x ≤ 2 ^ (1025 : ℤ) := by
  rcases (Rounds.bounds_of_holds significand exponent hpositive x hholds).1 with ⟨hlow, hhigh⟩
  have hreach := Rounds.reach_le_two significand exponent
  have hsignificand : (1 : ℚ) ≤ significand := by exact_mod_cast hpositive.pos
  have hdigits : (significand : ℚ) + 1 ≤ 2 ^ 53 := by exact_mod_cast hpositive.lt
  have hpower : (0 : ℚ) < 2 ^ exponent := by positivity
  have hleast := hpositive.least
  have hlargest : exponent ≤ 972 := by
    rw [leastExponent, leastNormal, infinityBits] at hfinite
    omega
  constructor
  · calc (2 : ℚ) ^ (-1075 : ℤ) ≤ 2 ^ (exponent - 1) :=
          zpow_le_zpow_right₀ (by norm_num) (by omega)
      _ = 1 / 2 * 2 ^ exponent := by rw [zpow_sub_one₀ (by norm_num)]; ring
      _ ≤ (significand - Rounds.reach significand exponent / 4) * 2 ^ exponent :=
          mul_le_mul_of_nonneg_right (by linarith) hpower.le
      _ ≤ x := hlow
  · calc x ≤ (significand + 1 / 2) * 2 ^ exponent := hhigh
      _ ≤ 2 ^ 53 * 2 ^ exponent := mul_le_mul_of_nonneg_right (by linarith) hpower.le
      _ = 2 ^ (exponent + 53) := (Binary64.two_zpow_add exponent 53).symm
      _ ≤ 2 ^ (1025 : ℤ) := zpow_le_zpow_right₀ (by norm_num) (by omega)

/-- No double reaches the powers of ten beyond which digits are not looked at. -/
theorem two_pow_lt_ten_pow : (2 : ℚ) ^ (1075 : ℤ) < 10 ^ (400 : ℤ) := by
  calc (2 : ℚ) ^ (1075 : ℤ) = (2 ^ (43 : ℤ)) ^ (25 : ℤ) := by rw [← zpow_mul]; rfl
    _ < (10 ^ (16 : ℤ)) ^ (25 : ℤ) :=
        zpow_lt_zpow_left₀ (by positivity) (by norm_num) (by norm_num)
    _ = 10 ^ (400 : ℤ) := by rw [← zpow_mul]; rfl

/-- A decimal in the interval of a double is read as the double: it is neither so large
    nor so small that its digits are not looked at. -/
theorem toFloat_of_holds (significand : ℕ) (exponent : ℤ)
    (hpositive : Binary64.IsPositive significand exponent) (d : Decimal)
    (hholds : (Rounds.ofBinary significand exponent).Holds d.toRat)
    (hfinite : (exponent - leastExponent).toNat * leastNormal + significand < infinityBits) :
    d.toFloat = encoded ((exponent - leastExponent).toNat * leastNormal + significand) := by
  rcases bounds_of_holds significand exponent hpositive d.toRat hholds hfinite with ⟨hlow, hhigh⟩
  have hcoefficient : 0 < d.coefficient := by
    rw [Nat.pos_iff_ne_zero]
    intro hzero
    rw [Decimal.toRat, hzero, Nat.cast_zero, zero_mul] at hlow
    exact absurd hlow (not_le.mpr (by positivity))
  rcases toRat_bounds d hcoefficient with ⟨hfirst, hbehind⟩
  have hsmall : ¬ (d.coefficient = 0 ∨
      (Decimal.digitCount d.coefficient : ℤ) + d.exponent < -400) := by
    rintro (hzero | htop)
    · exact hcoefficient.ne' hzero
    · have hscale : (10 : ℚ) ^ ((Decimal.digitCount d.coefficient : ℤ) + d.exponent) ≤
          10 ^ (-400 : ℤ) := zpow_le_zpow_right₀ (by norm_num) htop.le
      have hapart : (10 : ℚ) ^ (-400 : ℤ) < 2 ^ (-1075 : ℤ) := by
        rw [zpow_neg, zpow_neg, inv_lt_inv₀ (by positivity) (by positivity)]
        exact two_pow_lt_ten_pow
      exact absurd (hlow.trans_lt hbehind) (not_lt.mpr (hscale.trans hapart.le))
  have hlarge : ¬ 400 < (Decimal.digitCount d.coefficient : ℤ) + d.exponent := by
    intro htop
    have hscale : (10 : ℚ) ^ (400 : ℤ) ≤
        10 ^ ((Decimal.digitCount d.coefficient : ℤ) + d.exponent - 1) :=
      zpow_le_zpow_right₀ (by norm_num) (by omega)
    have hapart : (2 : ℚ) ^ (1025 : ℤ) < 10 ^ (400 : ℤ) :=
      (zpow_le_zpow_right₀ (by norm_num) (by norm_num)).trans_lt two_pow_lt_ten_pow
    exact absurd (hscale.trans (hfirst.trans hhigh)) (not_le.mpr hapart)
  rw [Decimal.toRat_eq] at hholds
  rw [Decimal.toFloat]
  simp only [if_neg hsmall, if_neg hlarge]
  rw [Binary64.nearestBits_eq significand exponent hpositive _ _ d.denominator_pos hholds hfinite,
    encoded]

/-- The text of a finite double is a numeral that is read as the double. -/
theorem literal_encoded (bits : ℕ) (h : bits < infinityBits) :
    ∃ shape : Numeral.Shape, (Layout.literal.float (encoded bits)).toList = shape.chars ∧
      nearestBits shape.denotes.numerator shape.denotes.denominator = bits ∧
      shape.denotes.toFloat = encoded bits := by
  rcases ofBits_finite bits h with ⟨significand, exponent, hbits, hencoding, hparts⟩
  have htext : Layout.literal.float (encoded bits) = "" ++ Layout.literal.decimal
      (if significand = 0 then ⟨0, 0⟩ else (Rounds.ofBinary significand exponent).shortest) := by
    rw [Layout.float, Layout.float?, ofFloat_encoded bits h.le, hbits]
    rfl
  rcases Layout.writes_literal
      (if significand = 0 then ⟨0, 0⟩ else (Rounds.ofBinary significand exponent).shortest)
    with ⟨shape, hchars, hdenotes⟩
  refine ⟨shape, ?_, ?_⟩
  · rw [htext, String.empty_append, hchars]
  · rcases hparts with ⟨hbitsZero, hzero⟩ | hpositive
    · -- Only the coefficient zero is written with the value zero.
      rw [if_pos hzero] at hdenotes
      have hcoefficient : shape.denotes.coefficient = 0 := by
        have hpower : (0 : ℚ) < 10 ^ shape.denotes.exponent := by positivity
        have hrat : (shape.denotes.coefficient : ℚ) * 10 ^ shape.denotes.exponent = 0 := by
          rw [← Decimal.toRat, hdenotes, Decimal.toRat]
          norm_num
        exact_mod_cast (mul_eq_zero.mp hrat).resolve_right hpower.ne'
      constructor
      · rw [hbitsZero, nearestBits, if_pos]
        rw [Decimal.numerator, hcoefficient, Nat.zero_mul]
      · rw [hbitsZero, Decimal.toFloat, if_pos (Or.inl hcoefficient)]
        decide
    · have hholds := Rounds.holds_shortest significand exponent hpositive
      rw [if_neg hpositive.pos.ne'] at hdenotes
      rw [← hdenotes] at hholds
      rw [hencoding] at h ⊢
      refine ⟨?_, toFloat_of_holds significand exponent hpositive _ hholds h⟩
      rw [Decimal.toRat_eq] at hholds
      exact Binary64.nearestBits_eq significand exponent hpositive _ _ shape.denotes.denominator_pos
        hholds h

theorem ofFloat_infinity : Binary64.ofFloat (encoded infinityBits) = .infinite false := by
  rw [ofFloat_encoded _ le_rfl]
  decide

/-- A literal stands in no parentheses. -/
theorem literalText_encoded (bits : ℕ) (h : bits ≤ infinityBits) :
    Expr.literalText (encoded bits) = Layout.literal.float (encoded bits) := by
  rw [Expr.literalText, less_encoded bits h, if_neg Bool.false_ne_true]
  rfl

/-- The text of a literal is the word for infinity, or a numeral that tells the double. -/
theorem literalText_cases (x : Float) (hx : IsLiteral x) :
    (Binary64.ofFloat x = .infinite false ∧ Expr.literalText x = "inf") ∨
      Binary64.ofFloat x ≠ .infinite false ∧ ∃ shape : Numeral.Shape,
        (Expr.literalText x).toList = shape.chars ∧
          x = encoded (nearestBits shape.denotes.numerator shape.denotes.denominator) := by
  rcases hx with ⟨bits, hle, rfl⟩
  rw [literalText_encoded bits hle]
  rcases hle.lt_or_eq with hlt | rfl
  · rcases ofBits_finite bits hlt with ⟨significand, exponent, hbits, -, -⟩
    rcases literal_encoded bits hlt with ⟨shape, hchars, hback, -⟩
    refine .inr ⟨?_, shape, hchars, by rw [hback]⟩
    rw [ofFloat_encoded bits hle, hbits]
    exact fun h => by cases h
  · refine .inl ⟨ofFloat_infinity, ?_⟩
    rw [Layout.float, ofFloat_infinity]
    rfl

/-- A finite double without a sign. The negative zero has one. -/
def IsUnsigned (x : Float) : Prop :=
  ∃ significand exponent, Binary64.ofFloat x = .finite false significand exponent

/-- A double is told by its encoding. -/
theorem eq_of_toBits (x y : Float) (h : x.toBits = y.toBits) : x = y := by
  rcases x with ⟨⟨bits, valid⟩⟩
  rcases y with ⟨⟨bits', valid'⟩⟩
  have hbits : bits = bits' := h
  subst hbits
  rfl

/-- A finite double without a sign has an encoding below the one of infinity. -/
theorem exists_encoding (x : Float) (h : IsUnsigned x) :
    ∃ bits < infinityBits, x = encoded bits := by
  rcases h with ⟨significand, exponent, hparts⟩
  rw [Binary64.ofFloat] at hparts
  have hbits : x.toBits.toNat < infinityBits := by
    simp only [Binary64.ofBits] at hparts
    split at hparts
    · split at hparts <;> cases hparts
    · -- The sign is the first bit, and the largest exponent is no finite number's.
      next hfield =>
      have hsign : decide (2 ^ 63 ≤ x.toBits.toNat) = false := by
        split at hparts
        · exact (Binary64.finite.inj hparts).1
        · exact (Binary64.finite.inj hparts).1
      rw [decide_eq_false_iff_not] at hsign
      rw [infinityBits]
      omega
  refine ⟨x.toBits.toNat, hbits, eq_of_toBits _ _ (UInt64.toNat.inj ?_)⟩
  rw [← UInt64.toNat_toBitVec (encoded _).toBits, toBits_encoded _ hbits.le]

/-- The text of a finite literal without a sign is a numeral that is read as the
    literal. -/
theorem literalText_of_isUnsigned (x : Float) (h : IsUnsigned x) :
    ∃ shape : Numeral.Shape, (Expr.literalText x).toList = shape.chars ∧
      shape.denotes.toFloat = x := by
  rcases exists_encoding x h with ⟨bits, hbits, rfl⟩
  rcases literal_encoded bits hbits with ⟨shape, hchars, -, hback⟩
  exact ⟨shape, by rw [literalText_encoded bits hbits.le, hchars], hback⟩

end Metrology.Double
