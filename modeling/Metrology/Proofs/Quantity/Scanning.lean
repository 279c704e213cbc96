import Metrology.Proofs.Decimal.ByteScan
import Metrology.Quantity.Reader

/-!
# The number of a quantity

The number at the start of a quantity's text is scanned in one pass over the mantissa, with two
flags, while the scan of a formula cuts runs of digits off. Both count the same characters as
soon as the mantissa has a digit. If it has none, the quantity has no number, and a formula
has an error to report.

So a quantity takes the longest number that its text begins with. Such a number can always be
read, and therefore reading a quantity fails for want of a number only where none was found.

## Main definitions

* `ByteScan.numberEnd`: Scanning the number of a quantity in the bytes of its text.

## Theorems

* `QuantityReader.mantissaEnd_eq`: What the flags count.
* `QuantityReader.isLongest_numberLength`: A quantity takes the longest number there is.
* `QuantityReader.numberLength_eq`: Without a sign it takes what a formula takes.
* `ByteScan.numberEnd_eq`: Bytes are counted as characters are.
* `Quantity.read_cases`, `Quantity.number_scanned`: The text of a quantity.
-/

namespace Metrology

open Numeral

namespace QuantityReader

/-- Both scanners take the same for a power of ten. -/
theorem exponentEnd_eq (length : ℕ) (cs : List Char) :
    exponentEnd length cs = length + Token.exponentLength cs := by
  rcases cs with _ | ⟨mark, rest⟩
  · rfl
  by_cases hmark : mark = 'e' ∨ mark = 'E'
  · have hcontinues : ¬ (mark ≠ 'e' ∧ mark ≠ 'E') := fun h => hmark.elim h.1 h.2
    rcases exists_signCut rest with ⟨sign, behind, hcut, rfl⟩
    rw [exponentLength_cut mark hmark sign behind hcut]
    rcases hcut with ⟨hsign, hnone⟩
    -- The two scanners look for the sign in different ways, so a missing one is a case of its own.
    by_cases hempty : sign = []
    · rcases hnone hempty with ⟨hplus, hminus⟩
      subst hempty
      rcases behind with _ | ⟨c, others⟩
      · simp [exponentEnd]
      · simp only [List.head?_cons, ne_eq, Option.some.injEq] at hplus hminus
        by_cases hc : c.isDigit = true
        · simp [exponentEnd, hcontinues, hplus, hminus, hc]
          omega
        · simp [exponentEnd, hcontinues, hplus, hminus, hc]
    · have hone : ∃ c, (c = '-' ∨ c = '+') ∧ sign = [c] := by
        rcases hsign with h | h | h
        · exact absurd h hempty
        · exact ⟨'+', Or.inr rfl, h⟩
        · exact ⟨'-', Or.inl rfl, h⟩
      rcases hone with ⟨c, hc, rfl⟩
      simp only [List.singleton_append, exponentEnd, if_neg hcontinues, if_pos hc,
        List.isEmpty_iff, List.length_singleton]
      split <;> omega
  · rcases not_or.mp hmark with ⟨hlower, hupper⟩
    simp [exponentEnd, Token.exponentLength, hlower, hupper]

section Mantissa

variable (pointMet digitMet : Bool) (length : ℕ)

/-- Digits are counted. -/
theorem mantissaEnd_digits (digits rest : List Char) (hdigits : ∀ c ∈ digits, c.isDigit = true) :
    mantissaEnd pointMet digitMet length (digits ++ rest) =
      mantissaEnd pointMet (digitMet || !digits.isEmpty) (length + digits.length) rest := by
  induction digits generalizing digitMet length with
  | nil => simp
  | cons c others ih =>
      rw [List.cons_append, mantissaEnd, if_pos (hdigits c List.mem_cons_self),
        ih true (length + 1) fun d hd => hdigits d (List.mem_cons_of_mem _ hd), List.length_cons,
        Nat.add_right_comm, Nat.add_assoc]
      simp

/-- What can be no part of the mantissa ends it. -/
theorem mantissaEnd_tail (tail : List Char) (hdigit : ∀ c, tail.head? = some c → c.isDigit = false)
    (hpoint : tail.head? = some '.' → pointMet = true) :
    mantissaEnd pointMet digitMet length tail =
      if digitMet then length + Token.exponentLength tail else 0 := by
  rcases tail with _ | ⟨c, rest⟩
  · rw [mantissaEnd]
    rfl
  · have hcontinues : ¬ (c = '.' ∧ (!pointMet) = true) := by
      rintro ⟨rfl, hmet⟩
      rw [hpoint rfl] at hmet
      cases hmet
    rw [mantissaEnd, hdigit c rfl, if_neg Bool.false_ne_true, if_neg hcontinues, exponentEnd_eq]

end Mantissa

/-- There is a digit among digits if there is anything. -/
theorem any_isDigit (digits : List Char) (hdigits : ∀ c ∈ digits, c.isDigit = true) :
    digits.any Char.isDigit = !digits.isEmpty := by
  rcases digits with _ | ⟨c, others⟩
  · rfl
  · rw [List.any_cons, hdigits c List.mem_cons_self]
    rfl

/-- A quantity takes what a formula takes if the mantissa has a digit, and nothing otherwise. -/
theorem mantissaEnd_eq (mantissa tail : List Char) (hcut : Cut mantissa tail) (length : ℕ) :
    mantissaEnd false false length (mantissa ++ tail) =
      if mantissa.any Char.isDigit then length + Token.literalLength (mantissa ++ tail) else 0 := by
  rw [hcut.literalLength_eq]
  -- Without a point in the mantissa the tail cannot begin with one; behind a point it may.
  rcases hcut.pointed.parts with hdigits | ⟨whole, fraction, hwhole, hfraction, rfl⟩
  · have hpoint : tail.head? = some '.' → false = true := fun h =>
      absurd (hdigits '.' (hcut.point_mem h)) (by decide)
    rw [mantissaEnd_digits _ _ _ _ _ hdigits, mantissaEnd_tail _ _ _ _ hcut.not_isDigit hpoint,
      any_isDigit _ hdigits, Bool.false_or, Nat.add_assoc]
  · have hany : (whole ++ '.' :: fraction).any Char.isDigit =
        (!whole.isEmpty || !fraction.isEmpty) := by
      rw [List.any_append, List.any_cons, any_isDigit _ hwhole, any_isDigit _ hfraction]
      rfl
    have hstep : ∀ digitMet length, mantissaEnd false digitMet length ('.' :: (fraction ++ tail)) =
        mantissaEnd true digitMet (length + 1) (fraction ++ tail) := by
      intro digitMet length
      rw [mantissaEnd, if_neg (by decide), if_pos (by decide)]
    rw [List.append_assoc, List.cons_append, mantissaEnd_digits _ _ _ _ _ hwhole, hstep,
      mantissaEnd_digits _ _ _ _ _ hfraction,
      mantissaEnd_tail _ _ _ _ hcut.not_isDigit fun _ => rfl, hany, Bool.false_or,
      List.length_append, List.length_cons]
    congr 1
    omega

/-- A sign is counted, and the mantissa begins behind it. -/
theorem numberLength_cut (sign behind : List Char) (hcut : SignCut sign behind) :
    numberLength (sign ++ behind) = mantissaEnd false false sign.length behind := by
  rcases hcut with ⟨rfl | rfl | rfl, hnone⟩
  · rcases hnone rfl with ⟨hplus, hminus⟩
    rcases behind with _ | ⟨c, rest⟩
    · rfl
    · rw [List.nil_append, numberLength, if_neg]
      · rfl
      · rintro (rfl | rfl)
        · exact hminus rfl
        · exact hplus rfl
  · rfl
  · rfl

/-- A quantity takes the longest number there is. -/
theorem isLongest_numberLength (cs : List Char) : IsLongest IsSigned cs (numberLength cs) := by
  rcases exists_signCut cs with ⟨sign, behind, hsign, rfl⟩
  rcases exists_cut behind with ⟨mantissa, tail, hcut, rfl⟩
  have hlength := (numberLength_cut _ _ hsign).trans (mantissaEnd_eq mantissa tail hcut sign.length)
  -- A number at the start of the text is the same sign and a literal behind it.
  have hbounded : ∀ start, start <+: sign ++ (mantissa ++ tail) → IsSigned start →
      (∃ c ∈ mantissa, c.isDigit = true) ∧
        start.length ≤ sign.length + Token.literalLength (mantissa ++ tail) := by
    rintro start ⟨rest, hstart⟩ ⟨sign', literal, hsign', hliteral, rfl⟩
    rw [List.append_assoc] at hstart
    have hcut' : SignCut sign' (literal ++ rest) := by
      rcases head_of_isLiteral literal hliteral with ⟨c, others, rfl, hc⟩
      exact signCut_cons sign' c (others ++ rest) hsign' hc
    rcases signCut_unique _ _ _ _ hcut' hsign hstart with ⟨rfl, hbehind⟩
    rcases hcut.bounded literal ⟨rest, hbehind⟩ hliteral with ⟨hdigit, hle⟩
    refine ⟨hdigit, ?_⟩
    rw [List.length_append]
    exact Nat.add_le_add_left hle _
  by_cases hdigit : ∃ c ∈ mantissa, c.isDigit = true
  · rw [if_pos (List.any_eq_true.mpr hdigit)] at hlength
    rw [hlength]
    refine ⟨?_, fun _ => ?_, fun start hstart h => (hbounded start hstart h).2⟩
    · rw [List.length_append]
      exact Nat.add_le_add_left hcut.literalLength_le _
    · rw [List.take_length_add_append]
      exact ⟨sign, _, hsign.isSign, hcut.isLiteral hdigit, rfl⟩
  · rw [if_neg fun h => hdigit (List.any_eq_true.mp h)] at hlength
    rw [hlength]
    exact ⟨Nat.zero_le _, fun h => absurd rfl h,
      fun start hstart h => absurd (hbounded start hstart h).1 hdigit⟩

/-- Where a number begins without a sign, a formula and a quantity take the same. -/
theorem numberLength_eq (cs : List Char) (h : BeginsLiteral cs) :
    numberLength cs = Token.literalLength cs := by
  rcases exists_cut cs with ⟨mantissa, tail, hcut, rfl⟩
  have hdigit := hcut.beginsLiteral_iff.mp h
  have hsign : SignCut [] (mantissa ++ tail) := by
    rcases h with ⟨c, rest, heq, hc⟩
    rw [heq]
    exact signCut_cons [] c rest (Or.inl rfl) (hc.imp_right And.left)
  have hlength := numberLength_cut [] (mantissa ++ tail) hsign
  rw [mantissaEnd_eq mantissa tail hcut, if_pos (List.any_eq_true.mpr hdigit)] at hlength
  exact hlength.trans (Nat.zero_add _)

end QuantityReader

namespace ByteScan

open Text (Stands byteIs)

/-- How many bytes the number at the start of a text takes; zero if there is none. -/
def numberEnd (bs : List UInt8) : ℕ :=
  let start := if byteIs marksSign bs 0 = true then 1 else 0
  let mantissa := mantissaEnd bs start
  if (List.range' start (mantissa - start)).any (byteIs Char.isDigit bs) = true then
    powerEnd bs mantissa
  else 0

/-- A byte of a kind is found where there is a character of the kind. -/
theorem any_byteIs (bs : List UInt8) (i : ℕ) (p : Char → Bool)
    (hp : ∀ c, p c = true → c.toNat < 128)
    (front rest : List Char) (hfront : ∀ c ∈ front, c.toNat < 128)
    (h : Stands bs i (front ++ rest)) :
    (List.range' i front.length).any (byteIs p bs) = front.any p := by
  induction front generalizing i with
  | nil => rfl
  | cons c others ih =>
      rw [List.length_cons, List.range'_succ, List.any_cons, List.any_cons, h.byteIs_eq p hp,
        ih (i + 1) (fun d hd => hfront d (List.mem_cons_of_mem _ hd))
          (h.next c (hfront c List.mem_cons_self))]
      rfl

/-- The number of a quantity ends in the bytes where it ends among the characters. -/
theorem numberEnd_eq (bs : List UInt8) (cs : List Char) (h : Stands bs 0 cs) :
    numberEnd bs = QuantityReader.numberLength cs := by
  rcases exists_signCut cs with ⟨sign, behind, hsign, rfl⟩
  rcases exists_cut behind with ⟨mantissa, tail, hcut, rfl⟩
  have hstart : (if byteIs marksSign bs 0 = true then 1 else 0) = 0 + sign.length := by
    rw [byteIs_marksSign bs 0 sign _ hsign h]
    rcases hsign.isSign with rfl | rfl | rfl <;> rfl
  have hmantissa := h.skip sign _ (toNat_lt_of_isSign sign hsign.isSign)
  have hascii := toNat_lt_of_isPointed mantissa hcut.pointed
  have hany := any_byteIs bs _ Char.isDigit toNat_lt_of_isDigit mantissa tail hascii hmantissa
  rw [QuantityReader.numberLength_cut sign _ hsign,
    QuantityReader.mantissaEnd_eq mantissa tail hcut,
    hcut.literalLength_eq, numberEnd, hstart, mantissaEnd_eq bs _ mantissa tail hcut hmantissa,
    Nat.add_sub_cancel_left, hany, powerEnd_eq bs _ tail (hmantissa.skip mantissa tail hascii),
    Nat.zero_add, Nat.add_assoc]

end ByteScan

section Texts

open QuantityReader (numberLength)

/-- A quantity is read from the number at the start of its text and from the unit behind it. The
    text is refused for want of a number only if no number stands there. -/
theorem Quantity.read_cases {α : Type} [Scalar α] (source : String) (cs : List Char)
    (hcs : Text.trimChars source.toList = cs) :
    numberLength cs = 0 ∧
        Quantity.read (α := α) source = .error (.invalidSyntax (String.ofList cs)) ∨
      ∃ negative magnitude,
        Numeral.read? (String.ofList (cs.take (numberLength cs))) =
            some (.finite negative magnitude) ∧
          Quantity.read (α := α) source =
            Quantity.withUnit (Arithmetic.ofSigned negative magnitude)
              (Text.trim (String.ofList (cs.drop (numberLength cs)))) := by
  by_cases hzero : numberLength cs = 0
  · refine Or.inl ⟨hzero, ?_⟩
    rw [Quantity.read, hcs, hzero]
    rfl
  · have hlongest := QuantityReader.isLongest_numberLength cs
    rcases read?_of_isSigned _ (hlongest.attained hzero) with ⟨negative, magnitude, hread⟩
    refine Or.inr ⟨negative, magnitude, hread, ?_⟩
    rw [Quantity.read, hcs]
    simp only [hread]

/-- What a quantity takes for its number, in characters and in bytes, is the longest number that
    the text begins with. It ends where a character begins and it is read as a number, so a
    text is refused for want of a number only if there is none. Where a number begins without
    a sign, a formula takes the same, in characters and in bytes. -/
theorem Quantity.number_scanned {α : Type} [Scalar α] (text : String) :
    IsLongest IsSigned text.toList (numberLength text.toList) ∧
      ByteScan.numberEnd text.toUTF8.data.toList = numberLength text.toList ∧
      Lexeme.byteLength (text.toList.take (numberLength text.toList)) =
        numberLength text.toList ∧
      (String.Pos.Raw.mk (numberLength text.toList)).IsValid text ∧
      (numberLength text.toList ≠ 0 → ∃ negative magnitude,
        Numeral.read? (String.ofList (text.toList.take (numberLength text.toList))) =
          some (.finite negative magnitude)) ∧
      (∀ cs, Text.trimChars text.toList = cs →
        numberLength cs = 0 ∧
            Quantity.read (α := α) text = .error (.invalidSyntax (String.ofList cs)) ∨
          ∃ negative magnitude,
            Numeral.read? (String.ofList (cs.take (numberLength cs))) =
                some (.finite negative magnitude) ∧
              Quantity.read (α := α) text =
                Quantity.withUnit (Arithmetic.ofSigned negative magnitude)
                  (Text.trim (String.ofList (cs.drop (numberLength cs))))) ∧
      (BeginsLiteral text.toList →
        Token.literalLength text.toList = numberLength text.toList ∧
          ByteScan.literalEnd text.toUTF8.data.toList 0 = numberLength text.toList) := by
  have hlongest := QuantityReader.isLongest_numberLength text.toList
  have hstands : Text.Stands (Text.bytes text.toList) 0 text.toList := rfl
  have hbytes : Lexeme.byteLength (text.toList.take (numberLength text.toList)) =
      numberLength text.toList := by
    by_cases hzero : numberLength text.toList = 0
    · rw [hzero]
      rfl
    · rw [Text.byteLength_ascii _ (ByteScan.toNat_lt_of_isSigned _ (hlongest.attained hzero)),
        List.length_take, Nat.min_eq_left hlongest.inside]
  have hvalid := Text.isValid_byteLength (text.toList.take (numberLength text.toList))
    (text.toList.drop (numberLength text.toList))
  rw [hbytes, List.take_append_drop, String.ofList_toList] at hvalid
  rw [Text.toList_toUTF8]
  refine ⟨hlongest, ByteScan.numberEnd_eq _ _ hstands, hbytes, hvalid,
    fun hsome => read?_of_isSigned _ (hlongest.attained hsome), Quantity.read_cases text,
    fun hbegins => ?_⟩
  have hsame := QuantityReader.numberLength_eq text.toList hbegins
  exact ⟨hsame.symm, by rw [ByteScan.literalEnd_eq _ 0 _ hstands, hsame, Nat.zero_add]⟩

/-- In `2e-3kg` the letter `e` belongs to the number, in `2em` it does not. -/
example : numberLength "2e-3kg".toList = 4 ∧ numberLength "2em".toList = 1 := by decide

end Texts

end Metrology
