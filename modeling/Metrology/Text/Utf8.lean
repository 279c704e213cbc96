/-!
# Faults in UTF-8

Bytes that should be a text in UTF-8 need not be one. A message then says where
the first fault is and how many bytes make it up: the longest beginning of a
sequence that could still have been completed, or one byte that cannot begin
one. When the bytes end within a sequence there is no such count.

## Main definitions

* `Utf8.Fault`: Where bytes stop being a text.
* `Utf8.tailRanges?`: The bytes that may follow a leading byte.
* `Utf8.firstFault?`: The first fault of a list of bytes.
* `Utf8.decode`: The text of a list of bytes.

## Theorems

* `Utf8.decode_toUTF8`: The bytes of a text decode to the text.
-/

namespace Metrology.Utf8

/-- Where bytes stop being a text, and how many bytes are at fault; no count if
    the bytes end too early. -/
structure Fault where
  index : Nat
  length : Option Nat
  deriving DecidableEq, Repr

/-- What a message says about a fault. -/
def Fault.describe (fault : Fault) : String :=
  match fault.length with
  | some length =>
    "invalid utf-8 sequence of " ++ toString length ++ " bytes from index " ++ toString fault.index
  | none => "incomplete utf-8 byte sequence from index " ++ toString fault.index

/-- The bytes that may follow a leading byte, as ranges; none if no sequence
    begins with it. -/
def tailRanges? (lead : UInt8) : Option (List (UInt8 × UInt8)) :=
  let any : UInt8 × UInt8 := (0x80, 0xbf)
  if lead < 0x80 then some []
  else if lead < 0xc2 then none
  else if lead < 0xe0 then some [any]
  else if lead = 0xe0 then some [(0xa0, 0xbf), any]
  else if lead = 0xed then some [(0x80, 0x9f), any]
  else if lead < 0xf0 then some [any, any]
  else if lead = 0xf0 then some [(0x90, 0xbf), any, any]
  else if lead < 0xf4 then some [any, any, any]
  else if lead = 0xf4 then some [(0x80, 0x8f), any, any]
  else none

/-- Compares bytes with the ranges they should be in, `done` bytes of the
    sequence having been met. The answer is the length of the sequence, or the
    count of a fault. -/
def checkTail : (done : Nat) → List (UInt8 × UInt8) → List UInt8 → Except (Option Nat) Nat
  | done, [], _ => .ok done
  | _, _ :: _, [] => .error none
  | done, (first, last) :: ranges, byte :: bytes =>
    if first ≤ byte ∧ byte ≤ last then checkTail (done + 1) ranges bytes
    else .error (some done)

/-- The first fault of a list of bytes that begins at `index`, of which `skip`
    bytes belong to a sequence met already. -/
def scan : (index skip : Nat) → List UInt8 → Option Fault
  | _, _, [] => none
  | index, skip + 1, _ :: rest => scan (index + 1) skip rest
  | index, 0, lead :: rest =>
    match tailRanges? lead with
    -- No sequence begins with this byte.
    | none => some ⟨index, some 1⟩
    | some ranges =>
      match checkTail 1 ranges rest with
      | .error length => some ⟨index, length⟩
      | .ok length => scan (index + 1) (length - 1) rest

/-- The first fault of a list of bytes. -/
def firstFault? (bytes : List UInt8) : Option Fault := scan 0 0 bytes

/-- The text of a list of bytes, or the first fault. -/
def decode (bytes : List UInt8) : Except Fault String :=
  match String.fromUTF8? ⟨bytes.toArray⟩ with
  | some text => .ok text
  | none => .error ((firstFault? bytes).getD ⟨bytes.length, none⟩)

theorem decode_toUTF8 (text : String) : decode text.toUTF8.data.toList = .ok text := by
  have hbytes : (⟨text.toUTF8.data.toList.toArray⟩ : ByteArray) = text.toUTF8 := by simp
  have hdecoded : String.fromUTF8? text.toUTF8 = some text := dif_pos text.isValidUTF8
  rw [decode, hbytes, hdecoded]

end Metrology.Utf8
