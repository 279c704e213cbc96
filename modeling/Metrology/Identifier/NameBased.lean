import Metrology.Identifier.Sha1
import Metrology.Identifier.Uuid

/-!
# Identifiers made from names

An identifier of version 5 is made from a name: the first 128 bits of a digest
of the name, with six of the bits replaced by the marks of the version and the
variant. The name stands behind the bytes of a namespace; here that is the one
for object identifiers.

## Main definitions

* `Uuid.objectNamespace`: The namespace of object identifiers.
* `Uuid.ofName`: The identifier of a name.
-/

namespace Metrology.Uuid

/-- The namespace of object identifiers. -/
def objectNamespace : Uuid := ⟨0x6ba7b8129dad11d180b400c04fd430c8⟩

/-- The sixteen bytes of an identifier, the highest first. -/
def bytes (id : Uuid) : List UInt8 :=
  (List.range 16).reverse.map fun i => UInt8.ofNat (id.value / 256 ^ i)

/-- Replaces the bits of the version and of the variant by their marks. -/
def markVersion5 (n : Nat) : Uuid :=
  let high := n / 2 ^ 80
  let middle := n / 2 ^ 64 % 2 ^ 12
  let low := n % 2 ^ 62
  ⟨high * 2 ^ 80 + 5 * 2 ^ 76 + middle * 2 ^ 64 + 2 * 2 ^ 62 + low⟩

/-- The identifier of a name. -/
def ofName (name : String) : Uuid :=
  markVersion5 (Sha1.digest (objectNamespace.bytes ++ name.toUTF8.data.toList) / 2 ^ 32)

end Metrology.Uuid
