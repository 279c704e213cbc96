import Metrology.Decimal.Layout
import Metrology.Proofs.Decimal.Digits
import Metrology.Proofs.Decimal.Nearest
import Metrology.Proofs.Text.Split

/-!
# Literals are read back

A literal of a formula is written in one of four forms: with zeros and `.0` behind
its digits, with a point among them, with zeros in front of them, or with a power of
ten. All four are digits, a point and digits if there are any, and a mark of the
power of ten. A numeral of that shape is read to its end, and what it denotes is the
number that was written.

## Main definitions

* `Numeral.Shape`: The parts of a numeral.
* `Numeral.Writes`: Characters that are a numeral of the same number as a decimal.

## Theorems

* `Numeral.exponent?_toString`: A power of ten is read back.
* `Numeral.unsigned?_parts`: A numeral is read to its end.
* `Numeral.magnitude?_digits`: What begins with a digit or a point is no word.
* `Layout.writes_literal`: A literal is a numeral of its number.
-/

namespace Metrology

open Decimal (digitsValue)

namespace Numeral

theorem natural?_toDigits (k : ℕ) : exponent?.natural? (Nat.toDigits 10 k) = some k := by
  have hall : (Nat.toDigits 10 k).all Char.isDigit = true :=
    List.all_eq_true.mpr (Decimal.isDigit_of_mem_toDigits k)
  rw [exponent?.natural?, if_pos ⟨Nat.toDigits_ne_nil, hall⟩, Decimal.digitsValue_toDigits]

/-- A power of ten that is written is read back. -/
theorem exponent?_toString (n : ℤ) : exponent? ('e' :: (toString n).toList) = some n := by
  rcases Decimal.toList_toString_cases n with ⟨k, ⟨hn, htext⟩ | ⟨hn, htext⟩⟩
  · rw [htext, exponent?, if_pos (Or.inl rfl), hn, natural?_toDigits]
    · rfl
    · intro digits h
      have hminus := Decimal.isDigit_of_mem_toDigits k '-' (h ▸ List.mem_cons_self)
      cases hminus
    · intro digits h
      have hplus := Decimal.isDigit_of_mem_toDigits k '+' (h ▸ List.mem_cons_self)
      cases hplus
  · rw [htext, exponent?, if_pos (Or.inl rfl), hn, natural?_toDigits]
    rfl

/-- A power of ten begins with its mark. -/
theorem head_of_exponent? (tail : List Char) (exponent : ℤ) (h : exponent? tail = some exponent)
    (c : Char) (hc : tail.head? = some c) : c = 'e' ∨ c = 'E' := by
  cases tail with
  | nil => cases hc
  | cons mark rest =>
      cases hc
      by_contra hmark
      have hnone : exponent? (c :: rest) = none := if_neg hmark
      rw [hnone] at h
      cases h

/-- Digits, a point and digits if there are any, and a power of ten are read to their end. -/
theorem unsigned?_parts (whole fraction tail : List Char) (exponent : ℤ)
    (hwhole : ∀ c ∈ whole, c.isDigit = true) (hfraction : ∀ c ∈ fraction, c.isDigit = true)
    (hsome : ¬ (whole = [] ∧ fraction = [])) (hexponent : exponent? tail = some exponent) :
    unsigned? (whole ++ (if fraction = [] then [] else '.' :: fraction) ++ tail) =
      some (.ofDigits whole fraction exponent) := by
  have hmark := head_of_exponent? tail exponent hexponent
  -- Digits end in front of the mark of the power of ten.
  have hend : ∀ c, tail.head? = some c → c.isDigit = false := by
    intro c hc
    rcases hmark c hc with rfl | rfl <;> decide
  by_cases hempty : fraction = []
  · have hchars : whole ++ (if fraction = [] then [] else '.' :: fraction) ++ tail =
        whole ++ tail := by
      rw [if_pos hempty, List.append_nil]
    have htake := Text.takeWhile_run _ _ _ hwhole hend
    have hdrop := Text.dropWhile_run _ _ _ hwhole hend
    -- What follows the digits is no point, so there is no fraction to be read.
    have hpoint : ∀ rest, tail ≠ '.' :: rest := by
      rintro rest rfl
      have hdot := hmark '.' rfl
      revert hdot
      decide
    rw [hchars, unsigned?, htake, hdrop, hempty]
    split
    next read rest heq =>
      split at heq
      · exact absurd rfl (hpoint _)
      · cases heq
        rw [if_neg (hempty ▸ hsome), hexponent, Option.map_some]
  · have hchars : whole ++ (if fraction = [] then [] else '.' :: fraction) ++ tail =
        whole ++ '.' :: (fraction ++ tail) := by
      rw [if_neg hempty, List.append_assoc, List.cons_append]
    have hpoint : ∀ c, ('.' :: (fraction ++ tail)).head? = some c → c.isDigit = false := by
      intro c hc
      rw [← Option.some.inj hc]
      decide
    have htake := Text.takeWhile_run _ _ _ hwhole hpoint
    have hdrop := Text.dropWhile_run _ _ _ hwhole hpoint
    have htakeFraction := Text.takeWhile_run _ _ _ hfraction hend
    have hdropFraction := Text.dropWhile_run _ _ _ hfraction hend
    rw [hchars, unsigned?, htake, hdrop]
    simp only [htakeFraction, hdropFraction]
    rw [if_neg hsome, hexponent, Option.map_some]

/-- A digit or a point is not a capital letter. -/
theorem toLower_eq (c : Char) (hc : c.isDigit = true ∨ c = '.') : c.toLower = c := by
  rcases hc with hc | rfl
  · have hrange := Decimal.toNat_of_isDigit c hc
    refine dif_neg fun hcapital => ?_
    have hlow : 65 ≤ c.toNat := UInt32.le_iff_toNat_le.mp hcapital.1
    omega
  · rfl

theorem ne_of_isDigit_or_point (c d : Char) (hc : c.isDigit = true ∨ c = '.')
    (hdigit : d.isDigit = false) (hpoint : d ≠ '.') : c ≠ d := by
  rintro rfl
  rcases hc with hc | hc
  · rw [hc] at hdigit
    cases hdigit
  · exact hpoint hc

/-- No word for a number that is not finite begins with a digit or a point. -/
theorem magnitude?_digits (negative : Bool) (c : Char) (rest : List Char)
    (hc : c.isDigit = true ∨ c = '.') :
    magnitude? negative (c :: rest) = (unsigned? (c :: rest)).map (.finite negative) := by
  have hword : ∀ d others, d.isDigit = false → d ≠ '.' →
      (c :: rest).map Char.toLower ≠ d :: others := by
    intro d others hdigit hpoint heq
    rw [List.map_cons, List.cons.injEq, toLower_eq c hc] at heq
    exact ne_of_isDigit_or_point c d hc hdigit hpoint heq.1
  rw [magnitude?, if_neg, if_neg]
  · exact hword 'n' _ (by decide) (by decide)
  · rintro (hinf | hinf)
    · exact hword 'i' _ (by decide) (by decide) hinf
    · exact hword 'i' _ (by decide) (by decide) hinf

/-- The parts of a numeral: digits, digits behind a point, and a power of ten. -/
structure Shape where
  whole : List Char
  fraction : List Char
  exponent : ℤ
  /-- Whether the power of ten is written. -/
  scientific : Bool
  isDigit_whole : ∀ c ∈ whole, c.isDigit = true
  isDigit_fraction : ∀ c ∈ fraction, c.isDigit = true
  whole_ne_nil : whole ≠ []
  exponent_eq_zero : scientific = false → exponent = 0

namespace Shape

variable (shape : Shape)

/-- The mark of the power of ten. -/
def mark : List Char := if shape.scientific then 'e' :: (toString shape.exponent).toList else []

/-- The characters of a numeral. -/
def chars : List Char :=
  shape.whole ++ (if shape.fraction = [] then [] else '.' :: shape.fraction) ++ shape.mark

/-- What a numeral denotes. -/
def denotes : Decimal := .ofDigits shape.whole shape.fraction shape.exponent

theorem exponent?_mark : exponent? shape.mark = some shape.exponent := by
  rw [mark]
  split
  · exact exponent?_toString _
  · next h =>
    rw [shape.exponent_eq_zero (by simpa using h), exponent?]

theorem unsigned?_chars : unsigned? shape.chars = some shape.denotes :=
  unsigned?_parts shape.whole shape.fraction shape.mark shape.exponent shape.isDigit_whole
    shape.isDigit_fraction (fun h => shape.whole_ne_nil h.1) shape.exponent?_mark

/-- A numeral begins with a digit. -/
theorem head_chars : ∃ c rest, shape.chars = c :: rest ∧ c.isDigit = true := by
  rcases List.exists_cons_of_ne_nil shape.whole_ne_nil with ⟨c, rest, hwhole⟩
  have hchars : shape.chars =
      c :: (rest ++ (if shape.fraction = [] then [] else '.' :: shape.fraction) ++ shape.mark) := by
    rw [chars, hwhole, List.cons_append, List.cons_append]
  exact ⟨c, _, hchars, shape.isDigit_whole c (hwhole ▸ List.mem_cons_self)⟩

/-- A numeral consists of digits, a point, the mark of a power and a minus sign. -/
theorem not_mem_chars (c : Char) (hdigit : c.isDigit = false) (hother : c ∉ ['.', 'e', '-']) :
    c ∉ shape.chars := by
  have hdigits : ∀ digits : List Char, (∀ d ∈ digits, d.isDigit = true) → c ∉ digits := by
    intro digits hdigits hmem
    exact absurd ((hdigits c hmem).symm.trans hdigit) Bool.true_eq_false_eq_False
  simp only [List.mem_cons, List.not_mem_nil, or_false, not_or] at hother
  have hfraction : c ∉ (if shape.fraction = [] then [] else '.' :: shape.fraction) := by
    split
    · exact List.not_mem_nil
    · exact List.not_mem_cons_of_ne_of_not_mem hother.1 (hdigits _ shape.isDigit_fraction)
  have hmark : c ∉ shape.mark := by
    rw [mark]
    split
    · exact List.not_mem_cons_of_ne_of_not_mem hother.2.1
        (Decimal.not_mem_toString _ c hdigit hother.2.2)
    · exact List.not_mem_nil
  rw [chars, List.mem_append, List.mem_append, not_or, not_or]
  exact ⟨⟨hdigits _ shape.isDigit_whole, hfraction⟩, hmark⟩

end Shape

/-- Characters that are a numeral of the same number as a decimal. -/
def Writes (cs : List Char) (d : Decimal) : Prop :=
  ∃ shape : Shape, cs = shape.chars ∧ shape.denotes.toRat = d.toRat

/-- Digits around a point and a power of ten write the decimal whose coefficient and
    exponent they make up. -/
theorem writes_of_parts (d : Decimal) (whole fraction : List Char) (exponent : ℤ)
    (scientific : Bool) (hdigits : ∀ c ∈ whole ++ fraction, c.isDigit = true)
    (hwhole : whole ≠ []) (hplain : scientific = false → exponent = 0)
    (hcoefficient : digitsValue (whole ++ fraction) = d.coefficient)
    (hexponent : exponent - fraction.length = d.exponent) :
    Writes (whole ++ (if fraction = [] then [] else '.' :: fraction) ++
      (if scientific then 'e' :: (toString exponent).toList else [])) d := by
  refine ⟨⟨whole, fraction, exponent, scientific, fun c hc => hdigits c (List.mem_append_left _ hc),
    fun c hc => hdigits c (List.mem_append_right _ hc), hwhole, hplain⟩, rfl, ?_⟩
  rw [Shape.denotes, Decimal.ofDigits, hcoefficient, hexponent]

section Forms

variable (d : Decimal) (digits : List Char) (hdigits : ∀ c ∈ digits, c.isDigit = true)
  (hvalue : digitsValue digits = d.coefficient)

theorem isDigit_of_mem_zeros (count : ℕ) (c : Char) (hc : c ∈ List.replicate count '0') :
    c.isDigit = true := by
  rw [List.eq_of_mem_replicate hc]
  decide

include hdigits hvalue

/-- A whole number: zeros behind the digits become part of the coefficient. -/
theorem writes_whole (hsome : 0 < digits.length) (hexponent : 0 ≤ d.exponent) :
    Writes (digits ++ List.replicate d.exponent.toNat '0' ++ ['.', '0']) d := by
  have hall : ∀ c ∈ digits ++ List.replicate d.exponent.toNat '0' ++ ['0'],
      c.isDigit = true := by
    intro c hc
    rw [List.append_assoc, ← List.replicate_succ', List.mem_append] at hc
    exact hc.elim (hdigits c) (isDigit_of_mem_zeros _ c)
  have hwhole : digits ++ List.replicate d.exponent.toNat '0' ≠ [] := by
    rw [← List.length_pos_iff, List.length_append]
    omega
  have hcoefficient : digitsValue (digits ++ List.replicate d.exponent.toNat '0' ++ ['0']) =
      d.coefficient * 10 ^ (d.exponent.toNat + 1) := by
    rw [List.append_assoc, ← List.replicate_succ', Decimal.digitsValue_append_zeros, hvalue]
  have hrat : (⟨d.coefficient * 10 ^ (d.exponent.toNat + 1), -1⟩ : Decimal).toRat = d.toRat := by
    have hscale : (10 : ℚ) ^ d.exponent = 10 ^ d.exponent.toNat := by
      rw [← zpow_natCast, Int.toNat_of_nonneg hexponent]
    rw [Decimal.toRat, Decimal.toRat, hscale]
    push_cast
    rw [pow_succ, zpow_neg, zpow_one]
    field_simp
  rcases writes_of_parts ⟨d.coefficient * 10 ^ (d.exponent.toNat + 1), -1⟩ _ _ 0 false hall hwhole
    (fun _ => rfl) hcoefficient rfl with ⟨shape, hchars, hdenotes⟩
  exact ⟨shape, (List.append_nil _).symm.trans hchars, hdenotes.trans hrat⟩

/-- A point among the digits. -/
theorem writes_pointed (count : ℕ) (hcount : 0 < count) (hplaces : count < digits.length)
    (hexponent : (digits.length : ℤ) + d.exponent = count) :
    Writes (digits.take count ++ '.' :: digits.drop count) d := by
  have hfraction : digits.drop count ≠ [] := by
    rw [← List.length_pos_iff, List.length_drop]
    omega
  have hwhole : digits.take count ≠ [] := by
    rw [← List.length_pos_iff, List.length_take]
    omega
  have hplace : 0 - ((digits.drop count).length : ℤ) = d.exponent := by
    rw [List.length_drop]
    omega
  have hwrites := writes_of_parts d (digits.take count) (digits.drop count) 0 false
    (by rwa [List.take_append_drop]) hwhole (fun _ => rfl) (by rw [List.take_append_drop, hvalue])
    hplace
  rw [if_neg hfraction] at hwrites
  rcases hwrites with ⟨shape, hchars, hdenotes⟩
  exact ⟨shape, (List.append_nil _).symm.trans hchars, hdenotes⟩

/-- Zeros between the point and the digits. -/
theorem writes_leading (count : ℕ) (hsome : 0 < digits.length)
    (hexponent : (count : ℤ) + digits.length + d.exponent = 0) :
    Writes ('0' :: '.' :: List.replicate count '0' ++ digits) d := by
  have hfraction : List.replicate count '0' ++ digits ≠ [] := by
    rw [← List.length_pos_iff, List.length_append]
    omega
  have hall : ∀ c ∈ ['0'] ++ (List.replicate count '0' ++ digits), c.isDigit = true := by
    intro c hc
    rw [← List.append_assoc, List.mem_append] at hc
    exact hc.elim (isDigit_of_mem_zeros (count + 1) c) (hdigits c)
  have hcoefficient : digitsValue (['0'] ++ (List.replicate count '0' ++ digits)) =
      d.coefficient := by
    rw [← List.append_assoc]
    exact (Decimal.digitsValue_zeros_append (count + 1) digits).trans hvalue
  have hplace : 0 - ((List.replicate count '0' ++ digits).length : ℤ) = d.exponent := by
    rw [List.length_append, List.length_replicate]
    omega
  have hwrites := writes_of_parts d _ _ 0 false hall (List.cons_ne_nil _ _) (fun _ => rfl)
    hcoefficient hplace
  rw [if_neg hfraction] at hwrites
  rcases hwrites with ⟨shape, hchars, hdenotes⟩
  exact ⟨shape, (List.append_nil _).symm.trans hchars, hdenotes⟩

/-- A point behind the first digit, and a power of ten. -/
theorem writes_scientific (decade : ℤ) (hsome : 0 < digits.length)
    (hexponent : (digits.length : ℤ) - 1 + d.exponent = decade) :
    Writes (digits.take 1 ++ (if digits.drop 1 = [] then [] else '.' :: digits.drop 1) ++
      'e' :: (toString decade).toList) d := by
  have hwhole : digits.take 1 ≠ [] := by
    rw [← List.length_pos_iff, List.length_take]
    omega
  have hplace : decade - ((digits.drop 1).length : ℤ) = d.exponent := by
    rw [List.length_drop]
    omega
  exact writes_of_parts d _ _ decade true (by rwa [List.take_append_drop]) hwhole
    (fun h => by cases h) (by rw [List.take_append_drop, hvalue]) hplace

end Forms

end Numeral

/-- A literal is a numeral of its number. -/
theorem Layout.writes_literal (d : Decimal) :
    Numeral.Writes (literal.decimal d).toList d := by
  have hdigits := Decimal.isDigit_of_mem_toDigits d.coefficient
  have hvalue := Decimal.digitsValue_toDigits d.coefficient
  have hsome : 0 < (Nat.toDigits 10 d.coefficient).length :=
    List.length_pos_iff.mpr Nat.toDigits_ne_nil
  rw [decimal]
  rw [String.toList_ofList]
  generalize Nat.toDigits 10 d.coefficient = digits at hdigits hvalue hsome
  simp only [List.isEmpty_iff]
  generalize hdecade : (digits.length : ℤ) - 1 + d.exponent = decade
  split
  · split
    · next hexponent => exact Numeral.writes_whole d digits hdigits hvalue hsome hexponent
    · split
      · exact Numeral.writes_pointed d digits hdigits hvalue _ (by omega) (by omega) (by omega)
      · exact Numeral.writes_leading d digits hdigits hvalue _ hsome (by omega)
  · exact Numeral.writes_scientific d digits hdigits hvalue decade hsome hdecade

end Metrology
