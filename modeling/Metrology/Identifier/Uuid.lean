import Metrology.Power

/-!
# Identifiers

Universally unique identifiers: numbers of 128 bits, written as 32 hexadecimal
digits in five groups. They name the records of a document.

An identifier is read in four forms: the digits alone, the digits in their
groups, and the grouped form between braces or behind `urn:uuid:`. Digits, and
the letters of that mark, may be of either case. An identifier is written in
lower-case groups.

## Main definitions

* `Uuid`: Identifiers.
* `Uuid.text`: The text of an identifier.
* `Uuid.read?`: Reading an identifier.
* `RecordId`: The identifier of a record.
* `IdSource`: Where identifiers come from.
* `RecordId.serial`: Identifiers with numbers in them.
-/

namespace Metrology

/-- A universally unique identifier, as a number of 128 bits. -/
structure Uuid where
  value : Nat
  deriving DecidableEq, Repr, Inhabited

namespace Uuid

/-- The last `count` hexadecimal digits of a number. -/
def hexDigits : (count : Nat) → Nat → List Char
  | 0, _ => []
  | count + 1, n => hexDigits count (n / 16) ++ [Nat.digitChar (n % 16)]

/-- The lengths of the groups of digits. -/
def groups : List Nat := [8, 4, 4, 4, 12]

/-- Cuts a list into pieces of the given lengths. -/
def cut : List Nat → List Char → List (List Char)
  | [], _ => []
  | length :: lengths, cs => cs.take length :: cut lengths (cs.drop length)

/-- The text of an identifier. -/
def text (id : Uuid) : String :=
  String.ofList (['-'].intercalate (cut groups (hexDigits 32 id.value)))

/-- The value of a hexadecimal digit. -/
def hexValue? (c : Char) : Option Nat :=
  if c.isDigit then some (c.toNat - '0'.toNat)
  else if 'a' ≤ c ∧ c ≤ 'f' then some (c.toNat - 'a'.toNat + 10)
  else if 'A' ≤ c ∧ c ≤ 'F' then some (c.toNat - 'A'.toNat + 10)
  else none

/-- The identifier of 32 hexadecimal digits. -/
def ofDigits? (digits : List Char) : Option Uuid :=
  if digits.length = 32 then
    (digits.foldlM (fun value c => (hexValue? c).map (value * 16 + ·)) 0).map Uuid.mk
  else none

/-- The digits of a text in groups, if there is a hyphen between every two
    groups. -/
def ungroup? : List Nat → List Char → Option (List Char)
  | [], cs => if cs.isEmpty then some [] else none
  | [length], cs => if cs.length = length then some cs else none
  | length :: lengths, cs =>
    if cs[length]? = some '-' then
      (ungroup? lengths (cs.drop (length + 1))).map (cs.take length ++ ·)
    else none

/-- Reads an identifier with hyphens between its groups. -/
def grouped? (cs : List Char) : Option Uuid := (ungroup? groups cs).bind ofDigits?

/-- The mark of an identifier written as a resource name, in lower case. -/
def resourceMark : List Char := "urn:uuid:".toList

/-- Reads an identifier in any of its forms. -/
def read? (source : String) : Option Uuid :=
  let cs := source.toList
  match cs.length with
  | 32 => ofDigits? cs
  | 36 => grouped? cs
  | 38 => if cs.head? = some '\x7b' ∧ cs.getLast? = some '\x7d' then grouped? (cs.drop 1).dropLast
          else none
  | 45 => if (cs.take 9).map Char.toLower = resourceMark then grouped? (cs.drop 9) else none
  | _ => none

end Uuid

/-- The identifier of a record. -/
abbrev RecordId := Uuid

/-- Where identifiers come from: the one that a session gives out as its `n`-th,
    the one made from a name, and the one that a text stands for. -/
class IdSource where
  serial : Nat → RecordId
  ofName : String → Uuid
  read? : String → Option Uuid

/-- The number whose hexadecimal digits are the decimal digits of `n`. The fuel
    bounds the count of digits. -/
def RecordId.decimalAsHex : (fuel : Nat) → Nat → Nat
  | 0, _ => 0
  | fuel + 1, n => if n = 0 then 0 else decimalAsHex fuel (n / 10) * 16 + n % 10

/-- The identifier with a number in it: the decimal digits of `n` stand at its
    end, behind digits that are the same for all. -/
def RecordId.serial (n : Nat) : RecordId :=
  ⟨0x00000000000040008000000000000000 + RecordId.decimalAsHex n n⟩

end Metrology
