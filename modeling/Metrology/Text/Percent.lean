import Metrology.Text.Utf8

/-!
# Percent encoding

The encoding of texts in web addresses. ASCII letters and digits and four marks
stand for themselves; every other byte of the text in UTF-8 is written as a
percent sign with two upper-case hexadecimal digits. A reader takes digits of
either case, and leaves a percent sign alone that no two digits follow.

## Main definitions

* `Percent.isUnreserved`: Whether a byte stands for itself.
* `Percent.encode`: The encoded text.
* `Percent.decode`: Reading an encoded text.
-/

namespace Metrology.Percent

/-- Whether a byte is an ASCII letter or digit, or one of the marks `-`, `_`,
    `.` and `~`. -/
def isUnreserved (byte : UInt8) : Bool :=
  let c := Char.ofNat byte.toNat
  byte < 0x80 && (c.isAlphanum || c = '-' || c = '_' || c = '.' || c = '~')

/-- The upper-case hexadecimal digit of a number below sixteen. -/
def hexDigit (n : Nat) : Char := (Nat.digitChar n).toUpper

/-- The value of a byte that is a hexadecimal digit. -/
def hexValue? (byte : UInt8) : Option UInt8 :=
  if 0x30 ≤ byte ∧ byte ≤ 0x39 then some (byte - 0x30)
  else if 0x41 ≤ byte ∧ byte ≤ 0x46 then some (byte - 0x41 + 10)
  else if 0x61 ≤ byte ∧ byte ≤ 0x66 then some (byte - 0x61 + 10)
  else none

/-- The characters that a byte is written as. -/
def encodeByte (byte : UInt8) : List Char :=
  if isUnreserved byte then [Char.ofNat byte.toNat]
  else ['%', hexDigit (byte.toNat / 16), hexDigit (byte.toNat % 16)]

/-- The encoded text. -/
def encode (text : String) : String :=
  String.ofList (text.toUTF8.data.toList.flatMap encodeByte)

/-- The byte that two hexadecimal digits at the start of a list stand for. -/
def escaped? : List UInt8 → Option UInt8
  | high :: low :: _ => do return (← hexValue? high) * 16 + (← hexValue? low)
  | _ => none

/-- Replaces every escaped byte. `skip` counts the digits of an escape that has
    been replaced already. -/
def decodeBytes : (skip : Nat) → List UInt8 → List UInt8
  | _, [] => []
  | skip + 1, _ :: rest => decodeBytes skip rest
  | 0, byte :: rest =>
    if byte = 0x25 then
      match escaped? rest with
      | some value => value :: decodeBytes 2 rest
      | none => byte :: decodeBytes 0 rest
    else byte :: decodeBytes 0 rest

/-- Reads an encoded text. The bytes need not be a text. -/
def decode (text : String) : Except Utf8.Fault String :=
  Utf8.decode (decodeBytes 0 text.toUTF8.data.toList)

end Metrology.Percent
