import Metrology.Text.Percent

/-!
# Percent encoding is read back

The encoding of a text is made of ASCII characters, so its own bytes are their
codes, and they are read from the left: a byte that stands for itself, or the
three characters of an escape. What follows the characters of a byte is a
parameter of the step, so that the steps chain.

## Main definitions

* `Percent.code`: The byte of an ASCII character.
* `Percent.isPlain`: The characters that an encoding is made of.

## Theorems

* `Percent.toUTF8_ofList`: The bytes of an ASCII text.
* `Percent.isPlain_of_mem_encode`: An encoding is made of plain characters.
* `Percent.encode_of_isAlphanum`: Letters and digits stand for themselves.
* `Percent.decodeBytes_encodeByte`: One byte is read back.
* `Percent.decode_encode`: An encoded text is read back.
-/

namespace Metrology.Percent

/-- The byte of an ASCII character. -/
def code (c : Char) : UInt8 := UInt8.ofNat c.toNat

/-- Whether a character can be part of an encoding: an ASCII letter or digit, one of
    the four marks, or the percent sign. -/
def isPlain (c : Char) : Bool :=
  decide (c.toNat < 0x80) &&
    (c.isAlphanum || c = '-' || c = '_' || c = '.' || c = '~' || c = '%')

theorem toUTF8_ofList (cs : List Char) (h : ∀ c ∈ cs, isPlain c = true) :
    (String.ofList cs).toUTF8.data.toList = cs.map code := by
  have hcode : ∀ c ∈ cs, String.utf8EncodeChar c = [code c] := by
    intro c hc
    have hascii := h c hc
    rw [isPlain, Bool.and_eq_true, decide_eq_true_eq] at hascii
    have hle : c.val.toNat ≤ 127 := by
      have := hascii.1
      rw [Char.toNat] at this
      omega
    rw [String.utf8EncodeChar, code, Char.toNat]
    simp only [if_pos hle]
  rw [String.toUTF8, String.toByteArray_ofList, List.utf8Encode, List.toList_data_toByteArray]
  rw [List.flatMap_def, List.map_congr_left hcode, ← List.flatMap_def, ← List.map_eq_flatMap]

section Digits

/-- Letters and digits are ASCII characters. -/
theorem toNat_of_isAlphanum (c : Char) (h : c.isAlphanum = true) : c.toNat < 0x80 := by
  change ((decide ('A'.val ≤ c.val ∧ c.val ≤ 'Z'.val) ||
    (decide ('a'.val ≤ c.val) && decide (c.val ≤ 'z'.val))) ||
      (decide ('0'.val ≤ c.val) && decide (c.val ≤ '9'.val))) = true at h
  simp only [Bool.or_eq_true, Bool.and_eq_true, decide_eq_true_eq, UInt32.le_iff_toNat_le] at h
  rw [Char.toNat]
  rcases h with (⟨-, h⟩ | ⟨-, h⟩) | ⟨-, h⟩ <;> exact Nat.lt_of_le_of_lt h (by decide)

theorem isPlain_hexDigit (n : Nat) (h : n < 16) : isPlain (hexDigit n) = true := by
  have hall : ∀ n < 16, isPlain (hexDigit n) = true := by decide
  exact hall n h

theorem hexValue?_hexDigit (n : Nat) (h : n < 16) :
    hexValue? (code (hexDigit n)) = some (UInt8.ofNat n) := by
  have hall : ∀ n < 16, hexValue? (code (hexDigit n)) = some (UInt8.ofNat n) := by decide
  exact hall n h

/-- A byte that stands for itself is the code of a plain character other than the
    percent sign. -/
theorem isPlain_of_isUnreserved (byte : UInt8) (h : isUnreserved byte = true) :
    isPlain (Char.ofNat byte.toNat) = true ∧ code (Char.ofNat byte.toNat) = byte ∧
      byte ≠ 0x25 := by
  have hall : ∀ n < 0x80, isUnreserved (UInt8.ofNat n) = true →
      isPlain (Char.ofNat (UInt8.ofNat n).toNat) = true ∧
        code (Char.ofNat (UInt8.ofNat n).toNat) = UInt8.ofNat n ∧ UInt8.ofNat n ≠ 0x25 := by
    decide
  have hascii : byte < 0x80 := by
    rw [isUnreserved, Bool.and_eq_true, decide_eq_true_eq] at h
    exact h.1
  have hbyte := hall byte.toNat (UInt8.lt_iff_toNat_lt.mp hascii)
  rw [UInt8.ofNat_toNat] at hbyte
  exact hbyte h

end Digits

/-- The code of an ASCII letter or digit is a byte that stands for itself. -/
theorem encodeByte_code (c : Char) (h : c.isAlphanum = true) : encodeByte (code c) = [c] := by
  have hall : ∀ n < 0x80, (Char.ofNat n).isAlphanum = true →
      encodeByte (UInt8.ofNat n) = [Char.ofNat n] := by
    decide
  have hself := hall c.toNat (toNat_of_isAlphanum c h)
  rw [Char.ofNat_toNat] at hself
  exact hself h

theorem isPlain_of_isAlphanum (c : Char) (h : c.isAlphanum = true) : isPlain c = true := by
  have hascii := toNat_of_isAlphanum c h
  simp [isPlain, h, hascii]

section Bytes

/-- The characters of a byte are plain. -/
theorem isPlain_of_mem_encodeByte (byte : UInt8) (c : Char) (h : c ∈ encodeByte byte) :
    isPlain c = true := by
  rw [encodeByte] at h
  split at h
  · next hself =>
    rw [List.mem_singleton.mp h]
    exact (isPlain_of_isUnreserved byte hself).1
  · have hbyte := byte.toNat_lt
    simp only [List.mem_cons, List.not_mem_nil, or_false] at h
    rcases h with rfl | rfl | rfl
    · decide
    · exact isPlain_hexDigit _ (by omega)
    · exact isPlain_hexDigit _ (by omega)

/-- The characters of a byte are read as the byte, whatever follows them. -/
theorem decodeBytes_encodeByte (byte : UInt8) (rest : List UInt8) :
    decodeBytes 0 ((encodeByte byte).map code ++ rest) = byte :: decodeBytes 0 rest := by
  rw [encodeByte]
  split
  · next hself =>
    rcases isPlain_of_isUnreserved byte hself with ⟨-, hcode, hpercent⟩
    rw [List.map_cons, List.map_nil, hcode, List.singleton_append, decodeBytes, if_neg hpercent]
  · have hbyte := byte.toNat_lt
    have hescaped : escaped? (code (hexDigit (byte.toNat / 16)) ::
        code (hexDigit (byte.toNat % 16)) :: rest) = some byte := by
      rw [escaped?, hexValue?_hexDigit _ (by omega), hexValue?_hexDigit _ (by omega)]
      simp only [Option.bind_eq_bind, Option.bind_some, Option.pure_def, Option.some.injEq]
      rw [← UInt8.toNat_inj]
      have hsixteen : (16 : UInt8).toNat = 16 := rfl
      simp only [UInt8.toNat_add, UInt8.toNat_mul, UInt8.toNat_ofNat', hsixteen]
      omega
    simp only [List.map_cons, List.map_nil, List.cons_append, List.nil_append]
    have hpercent : code '%' = 0x25 := rfl
    rw [decodeBytes, if_pos hpercent, hescaped]
    rfl

theorem decodeBytes_flatMap (bytes : List UInt8) :
    decodeBytes 0 ((bytes.flatMap encodeByte).map code) = bytes := by
  induction bytes with
  | nil => rfl
  | cons byte rest ih =>
      rw [List.flatMap_cons, List.map_append, decodeBytes_encodeByte, ih]

end Bytes

/-- An encoding is made of plain characters. -/
theorem isPlain_of_mem_encode (text : String) (c : Char) (h : c ∈ (encode text).toList) :
    isPlain c = true := by
  rw [encode, String.toList_ofList] at h
  rcases List.mem_flatMap.mp h with ⟨byte, -, hmem⟩
  exact isPlain_of_mem_encodeByte byte c hmem

/-- ASCII letters and digits stand for themselves. -/
theorem encode_of_isAlphanum (text : String) (h : ∀ c ∈ text.toList, c.isAlphanum = true) :
    encode text = text := by
  have hbytes : text.toUTF8.data.toList = text.toList.map code := by
    have hplain := toUTF8_ofList text.toList fun c hc => isPlain_of_isAlphanum c (h c hc)
    rwa [String.ofList_toList] at hplain
  have hself : (text.toList.map code).flatMap encodeByte = text.toList := by
    rw [List.flatMap_map, List.flatMap_def,
      List.map_congr_left fun c hc => encodeByte_code c (h c hc), ← List.flatMap_def]
    exact List.flatMap_singleton' _
  rw [encode, hbytes, hself, String.ofList_toList]

/-- An encoded text is read back. -/
theorem decode_encode (text : String) : decode (encode text) = .ok text := by
  have hbytes : (encode text).toUTF8.data.toList =
      (text.toUTF8.data.toList.flatMap encodeByte).map code := by
    rw [encode, toUTF8_ofList]
    intro c hc
    rcases List.mem_flatMap.mp hc with ⟨byte, -, hmem⟩
    exact isPlain_of_mem_encodeByte byte c hmem
  rw [decode, hbytes, decodeBytes_flatMap, Utf8.decode_toUTF8]

end Metrology.Percent
