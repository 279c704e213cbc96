import Metrology.Proofs.Decimal.Literal
import Metrology.Proofs.Text.Bytes

/-!
# Number literals scanned as bytes

A literal is made of ASCII characters, so its end can be looked for in the bytes of a text as
well as among its characters: an index moves on while the byte at it is a digit, a point or a
part of a power of ten. The index stays in front of a character all the time, and it stops as
many bytes behind its start as the literal has characters.

## Main definitions

* `ByteScan.digitsEnd`, `ByteScan.powerEnd`, `ByteScan.literalEnd`: The index behind digits, a
  power of ten, and a literal.

## Theorems

* `ByteScan.digitsEnd_eq`, `ByteScan.powerEnd_eq`: Where digits and powers of ten end.
* `ByteScan.literalEnd_eq`: A literal ends in the bytes where it ends among the characters.
-/

namespace Metrology.ByteScan

open Numeral
open Text (Stands byteIs)

section Scanners

variable (bs : List UInt8)

/-- The characters that can stand in front of digits. -/
def marksSign (c : Char) : Bool := c = '+' || c = '-'

/-- The letters of a power of ten. -/
def marksPower (c : Char) : Bool := c = 'e' || c = 'E'

/-- The index behind the digits at an index. -/
def digitsEnd (i : ℕ) : ℕ :=
  if byteIs Char.isDigit bs i = true then digitsEnd (i + 1) else i
termination_by bs.length - i
decreasing_by
  have hlt : i < bs.length := by
    by_contra hge
    simp_all [byteIs]
  omega

/-- The index behind digits with a point among them. -/
def mantissaEnd (start : ℕ) : ℕ :=
  let whole := digitsEnd bs start
  if byteIs (· = '.') bs whole = true then digitsEnd bs (whole + 1) else whole

/-- The index behind a power of ten. Without digits there is none, and the index stays. -/
def powerEnd (i : ℕ) : ℕ :=
  if byteIs marksPower bs i = true then
    let digits := if byteIs marksSign bs (i + 1) = true then i + 2 else i + 1
    if byteIs Char.isDigit bs digits = true then digitsEnd bs digits else i
  else i

/-- The index behind a literal. -/
def literalEnd (start : ℕ) : ℕ := powerEnd bs (mantissaEnd bs start)

end Scanners

/-- Digits are ASCII characters. -/
theorem toNat_lt_of_isDigit (c : Char) (hc : c.isDigit = true) : c.toNat < 128 := by
  have := Decimal.toNat_of_isDigit c hc
  omega

theorem toNat_lt_of_marksPower (c : Char) (hc : marksPower c = true) : c.toNat < 128 := by
  rcases (Bool.or_eq_true _ _).mp hc with hc | hc <;> rw [of_decide_eq_true hc] <;> decide

theorem toNat_lt_of_marksSign (c : Char) (hc : marksSign c = true) : c.toNat < 128 := by
  rcases (Bool.or_eq_true _ _).mp hc with hc | hc <;> rw [of_decide_eq_true hc] <;> decide

theorem toNat_lt_of_isSign (sign : List Char) (hsign : IsSign sign) :
    ∀ c ∈ sign, c.toNat < 128 := by
  rcases hsign with rfl | rfl | rfl <;> simp

theorem toNat_lt_of_isPointed (cs : List Char) (h : IsPointed cs) : ∀ c ∈ cs, c.toNat < 128 := by
  intro c hc
  rcases h.digit_or_point c hc with hdigit | rfl
  · exact toNat_lt_of_isDigit c hdigit
  · decide

/-- A number is made of ASCII characters. -/
theorem toNat_lt_of_isSigned (cs : List Char) (h : IsSigned cs) : ∀ c ∈ cs, c.toNat < 128 := by
  intro c hc
  have hmarks : ∀ d ∈ ['.', 'e', 'E', '+', '-'], d.toNat < 128 := by simp
  exact (mem_isSigned cs h c hc).elim (toNat_lt_of_isDigit c) (hmarks c)

section Stands

variable (bs : List UInt8)

/-- Digits end in the bytes where they end among the characters. -/
theorem digitsEnd_eq (i : ℕ) (rest : List Char) (h : Stands bs i rest) :
    digitsEnd bs i = i + (rest.takeWhile Char.isDigit).length := by
  have hbyte := h.byteIs_eq Char.isDigit toNat_lt_of_isDigit
  induction rest generalizing i with
  | nil =>
      rw [digitsEnd, hbyte]
      rfl
  | cons c others ih =>
      rw [List.head?_cons, Option.any_some] at hbyte
      by_cases hc : c.isDigit = true
      · have hnext := h.next c (toNat_lt_of_isDigit c hc)
        rw [digitsEnd, hbyte, if_pos hc, List.takeWhile_cons_of_pos hc, List.length_cons,
          ih (i + 1) hnext (hnext.byteIs_eq Char.isDigit toNat_lt_of_isDigit)]
        omega
      · rw [digitsEnd, hbyte, if_neg hc, List.takeWhile_cons_of_neg hc]
        rfl

/-- A mantissa ends in the bytes where it ends among the characters. -/
theorem mantissaEnd_eq (i : ℕ) (mantissa tail : List Char) (hcut : Cut mantissa tail)
    (h : Stands bs i (mantissa ++ tail)) : mantissaEnd bs i = i + mantissa.length := by
  have hascii : ∀ digits : List Char, (∀ c ∈ digits, c.isDigit = true) →
      ∀ c ∈ digits, c.toNat < 128 := fun digits hall c hc => toNat_lt_of_isDigit c (hall c hc)
  rcases hcut.pointed.parts with hdigits | ⟨whole, fraction, hwhole, hfraction, rfl⟩
  · have hpoint : tail.head? ≠ some '.' := fun heq =>
      Bool.false_ne_true (hdigits '.' (hcut.point_mem heq))
    have hbyte := (h.skip mantissa tail (hascii _ hdigits)).byteIs_eq_iff '.' (by decide)
    rw [mantissaEnd, digitsEnd_eq bs i _ h, Text.takeWhile_run _ _ _ hdigits hcut.not_isDigit]
    exact if_neg fun heq => hpoint (hbyte.mp heq)
  · rw [List.append_assoc, List.cons_append] at h
    have hends : ∀ c, ('.' :: (fraction ++ tail)).head? = some c → c.isDigit = false := by
      intro c hc
      rw [← Option.some.inj hc]
      decide
    have hpoint := h.skip whole _ (hascii _ hwhole)
    have hbehind := hpoint.next '.' (by decide)
    rw [mantissaEnd, digitsEnd_eq bs i _ h, Text.takeWhile_run _ _ _ hwhole hends,
      if_pos ((hpoint.byteIs_eq_iff '.' (by decide)).mpr rfl), digitsEnd_eq bs _ _ hbehind,
      Text.takeWhile_run _ _ _ hfraction hcut.not_isDigit, List.length_append, List.length_cons]
    omega

/-- A sign is seen at a byte if and only if one is cut off there. -/
theorem byteIs_marksSign (i : ℕ) (sign behind : List Char) (hcut : SignCut sign behind)
    (h : Stands bs i (sign ++ behind)) : byteIs marksSign bs i = !sign.isEmpty := by
  rw [h.byteIs_eq marksSign toNat_lt_of_marksSign]
  rcases hcut with ⟨rfl | rfl | rfl, hnone⟩
  · rcases hnone rfl with ⟨hplus, hminus⟩
    rcases behind with _ | ⟨c, others⟩
    · rfl
    · simp only [List.head?_cons, ne_eq, Option.some.injEq] at hplus hminus
      simp [marksSign, hplus, hminus]
  · rfl
  · rfl

/-- A power of ten ends in the bytes where it ends among the characters. -/
theorem powerEnd_eq (i : ℕ) (rest : List Char) (h : Stands bs i rest) :
    powerEnd bs i = i + Token.exponentLength rest := by
  have hbyte := h.byteIs_eq marksPower toNat_lt_of_marksPower
  rcases rest with _ | ⟨mark, behindMark⟩
  · rw [powerEnd, hbyte]
    rfl
  rw [List.head?_cons, Option.any_some] at hbyte
  by_cases hmark : mark = 'e' ∨ mark = 'E'
  · have hmarks : marksPower mark = true := by
      simpa [marksPower] using hmark
    rcases exists_signCut behindMark with ⟨sign, behind, hsign, rfl⟩
    have hnext := h.next mark (toNat_lt_of_marksPower mark hmarks)
    have hbehind := hnext.skip sign behind (toNat_lt_of_isSign sign hsign.isSign)
    -- The index behind the sign, if there is one.
    have hdigits : (if byteIs marksSign bs (i + 1) = true then i + 2 else i + 1) =
        i + 1 + sign.length := by
      rw [byteIs_marksSign bs _ sign behind hsign hnext]
      rcases hsign.isSign with rfl | rfl | rfl <;> rfl
    rw [powerEnd, hbyte, if_pos hmarks, hdigits]
    dsimp only
    rw [hbehind.byteIs_eq Char.isDigit toNat_lt_of_isDigit, digitsEnd_eq bs _ _ hbehind,
      exponentLength_cut mark hmark sign behind hsign]
    rcases behind with _ | ⟨c, others⟩
    · rfl
    · by_cases hc : c.isDigit = true
      · simp [hc]
        omega
      · simp [hc]
  · have hmarks : ¬ marksPower mark = true := by
      simpa [marksPower] using hmark
    have hlength : Token.exponentLength (mark :: behindMark) = 0 := by
      rw [Token.exponentLength, if_neg hmark]
    rw [powerEnd, hbyte, if_neg hmarks, hlength, Nat.add_zero]

/-- A literal ends in the bytes where it ends among the characters. -/
theorem literalEnd_eq (i : ℕ) (rest : List Char) (h : Stands bs i rest) :
    literalEnd bs i = i + Token.literalLength rest := by
  rcases exists_cut rest with ⟨mantissa, tail, hcut, rfl⟩
  have hbehind := h.skip mantissa tail (toNat_lt_of_isPointed mantissa hcut.pointed)
  rw [literalEnd, mantissaEnd_eq bs i mantissa tail hcut h, powerEnd_eq bs _ tail hbehind,
    hcut.literalLength_eq, Nat.add_assoc]

end Stands

end Metrology.ByteScan
