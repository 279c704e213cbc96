import Mathlib.Data.List.DropRight
import Mathlib.Tactic.Ring
import Metrology.Decimal.Basic

/-!
# Digits and what they denote

Texts are lists of characters, and numbers are written as lists of digits in them.
What a list of digits denotes does not change with zeros in front. Zeros at the end
multiply it by a power of ten, and whether there are any shows in the remainder.

## Main definitions

* `Decimal.signedValue`: What digits behind a sign denote.

## Theorems

* `Decimal.digitsValue_toDigits`, `Decimal.signedValue_toString`: What is written is
  read back.
* `Decimal.digitsValue_append`: Digits in front of others.
* `Decimal.digitsValue_zeros_append`, `Decimal.digitsValue_append_zeros`: Zeros in front
  and at the end.
* `Decimal.digitsValue_mod_ten`: The last digit.
-/

namespace Metrology.Decimal

theorem digitsValue_toDigits (n : Nat) : digitsValue (Nat.toDigits 10 n) = n :=
  Nat.ofDigitChars_ten_toDigits

theorem toList_toString_ofNat (n : Nat) : (toString (n : Int)).toList = Nat.toDigits 10 n := by
  rw [Int.toString_eq_repr, Int.repr_eq_if, if_pos (Int.natCast_nonneg n), Int.toNat_natCast,
    Nat.toList_repr]

theorem toList_toString_neg (n : Nat) (hpos : 0 < n) :
    (toString (-(n : Int))).toList = '-' :: Nat.toDigits 10 n := by
  rw [Int.toString_eq_repr, Int.repr_eq_if, if_neg (by omega), Int.neg_neg, Int.toNat_natCast,
    String.toList_append, Nat.toList_repr]
  rfl

/-- An integer is written as its digits, behind a sign if it is negative. -/
theorem toList_toString_cases (n : Int) :
    ∃ k : Nat, n = k ∧ (toString n).toList = Nat.toDigits 10 k ∨
      n = -k ∧ (toString n).toList = '-' :: Nat.toDigits 10 k := by
  refine ⟨n.natAbs, ?_⟩
  rcases Int.lt_or_le n 0 with hn | hn
  · have hneg : n = -(n.natAbs : Int) := by omega
    have htext := toList_toString_neg n.natAbs (by omega)
    rw [← hneg] at htext
    exact Or.inr ⟨hneg, htext⟩
  · have hnonneg : n = (n.natAbs : Int) := by omega
    have htext := toList_toString_ofNat n.natAbs
    rw [← hnonneg] at htext
    exact Or.inl ⟨hnonneg, htext⟩

theorem isDigit_of_mem_toDigits (n : Nat) : ∀ c ∈ Nat.toDigits 10 n, c.isDigit = true :=
  fun _ h => Nat.isDigit_of_mem_toDigits (by decide) (by decide) h

theorem digitsValue_concat (digits : List Char) (c : Char) :
    digitsValue (digits ++ [c]) = 10 * digitsValue digits + (c.toNat - '0'.toNat) :=
  Nat.ofDigitChars_append 0

theorem digitsValue_append (first second : List Char) :
    digitsValue (first ++ second) =
      digitsValue first * 10 ^ second.length + digitsValue second := by
  induction second using List.reverseRecOn with
  | nil => simp [digitsValue]
  | append_singleton second c ih =>
      rw [← List.append_assoc, digitsValue_concat, digitsValue_concat, ih, List.length_append,
        List.length_singleton, pow_succ]
      ring

theorem digitsValue_zeros (count : Nat) : digitsValue (List.replicate count '0') = 0 := by
  induction count with
  | zero => rfl
  | succ count ih =>
      rw [List.replicate_succ', digitsValue_concat, ih]
      rfl

/-- Zeros in front do not count. -/
theorem digitsValue_zeros_append (count : Nat) (digits : List Char) :
    digitsValue (List.replicate count '0' ++ digits) = digitsValue digits := by
  rw [digitsValue_append, digitsValue_zeros, Nat.zero_mul, Nat.zero_add]

/-- Zeros at the end make a multiple. -/
theorem digitsValue_append_zeros (count : Nat) (digits : List Char) :
    digitsValue (digits ++ List.replicate count '0') = digitsValue digits * 10 ^ count := by
  rw [digitsValue_append, digitsValue_zeros, List.length_replicate, Nat.add_zero]

theorem toNat_of_isDigit (c : Char) (hc : c.isDigit = true) : 48 ≤ c.toNat ∧ c.toNat ≤ 57 := by
  simpa [Char.isDigit, Char.le_def, UInt32.le_iff_toNat_le] using hc

/-- The last digit is zero if the number is a multiple of ten. -/
theorem digitsValue_mod_ten (digits : List Char) (c : Char) (hc : c.isDigit = true) :
    digitsValue (digits ++ [c]) % 10 = 0 ↔ c = '0' := by
  have hrange := toNat_of_isDigit c hc
  have hzero : '0'.toNat = 48 := rfl
  rw [digitsValue_concat, hzero, ← Char.toNat_inj, hzero]
  omega

/-- What digits denote, with a sign in front of them or without. -/
def signedValue : List Char → Int
  | '-' :: digits => -digitsValue digits
  | digits => digitsValue digits

/-- An integer that is written is read back. -/
theorem signedValue_toString (n : Int) : signedValue (toString n).toList = n := by
  rcases toList_toString_cases n with ⟨k, ⟨hn, htext⟩ | ⟨hn, htext⟩⟩
  · rw [htext, signedValue, digitsValue_toDigits, hn]
    intro digits hdigits
    have hminus := isDigit_of_mem_toDigits k '-' (hdigits ▸ List.mem_cons_self)
    cases hminus
  · rw [htext, signedValue, digitsValue_toDigits, hn]

/-- An integer is written with digits and a sign. -/
theorem not_mem_toString (n : Int) (c : Char) (hdigit : c.isDigit = false) (hsign : c ≠ '-') :
    c ∉ (toString n).toList := by
  have hdigits : ∀ k : Nat, c ∉ Nat.toDigits 10 k := by
    intro k hmem
    rw [isDigit_of_mem_toDigits k c hmem] at hdigit
    cases hdigit
  rcases toList_toString_cases n with ⟨k, ⟨-, htext⟩ | ⟨-, htext⟩⟩
  · rw [htext]
    exact hdigits k
  · rw [htext, List.mem_cons, not_or]
    exact ⟨hsign, hdigits k⟩

end Metrology.Decimal
