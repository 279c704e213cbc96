import Metrology.Power

/-!
# The SHA-1 digest

The hash function behind identifiers that are made from names. A message is
padded to blocks of 64 bytes; each block is expanded to eighty words, which are
mixed into five words of state.

## Main definitions

* `Sha1.pad`: A message filled up to whole blocks.
* `Sha1.schedule`: The eighty words of a block.
* `Sha1.compress`: Mixing a block into the state.
* `Sha1.digest`: The digest of a message, as a number of 160 bits.
-/

namespace Metrology.Sha1

/-- The five words of state. -/
structure State where
  a : UInt32
  b : UInt32
  c : UInt32
  d : UInt32
  e : UInt32
  deriving DecidableEq, Repr

def initial : State := ⟨0x67452301, 0xefcdab89, 0x98badcfe, 0x10325476, 0xc3d2e1f0⟩

def rotateLeft (x : UInt32) (n : UInt32) : UInt32 := (x <<< n) ||| (x >>> (32 - n))

/-- The eight bytes of a number, the highest first. -/
def bytes64 (n : Nat) : List UInt8 :=
  (List.range 8).reverse.map fun i => UInt8.ofNat (n / 256 ^ i)

/-- A message with a one bit behind it, filled up with zeros so that its length
    in bits ends the last block. -/
def pad (message : List UInt8) : List UInt8 :=
  let zeros := (119 - message.length % 64) % 64
  message ++ 0x80 :: List.replicate zeros 0 ++ bytes64 (8 * message.length)

/-- The word of the first four bytes of a list, the highest first. -/
def word (bytes : List UInt8) : UInt32 :=
  (bytes.take 4).foldl (fun w byte => w <<< 8 ||| byte.toUInt32) 0

/-- The words of a block of 64 bytes. -/
def words (block : List UInt8) : List UInt32 :=
  (List.range 16).map fun i => word (block.drop (4 * i))

/-- The next word of a schedule whose last words, the latest first, are given. -/
def nextWord (latest : List UInt32) : UInt32 :=
  rotateLeft (latest.getD 2 0 ^^^ latest.getD 7 0 ^^^ latest.getD 13 0 ^^^ latest.getD 15 0) 1

/-- Puts further words in front of a schedule that is kept latest first. -/
def extend : (count : Nat) → List UInt32 → List UInt32
  | 0, latest => latest
  | count + 1, latest => extend count (nextWord latest :: latest)

/-- The eighty words of a block. -/
def schedule (block : List UInt8) : List UInt32 := (extend 64 (words block).reverse).reverse

/-- The mixing function and the constant of a round. -/
def round (index : Nat) (s : State) : UInt32 × UInt32 :=
  if index < 20 then ((s.b &&& s.c) ||| (~~~s.b &&& s.d), 0x5a827999)
  else if index < 40 then (s.b ^^^ s.c ^^^ s.d, 0x6ed9eba1)
  else if index < 60 then ((s.b &&& s.c) ||| (s.b &&& s.d) ||| (s.c &&& s.d), 0x8f1bbcdc)
  else (s.b ^^^ s.c ^^^ s.d, 0xca62c1d6)

/-- One round: mixing one word into the state. -/
def step (s : State) (word : UInt32) (index : Nat) : State :=
  let (mixed, constant) := round index s
  ⟨rotateLeft s.a 5 + mixed + s.e + constant + word, s.a, rotateLeft s.b 30, s.c, s.d⟩

/-- Mixing a block into the state. -/
def compress (s : State) (block : List UInt8) : State :=
  let t := (schedule block).zipIdx.foldl (fun s (word, index) => step s word index) s
  ⟨s.a + t.a, s.b + t.b, s.c + t.c, s.d + t.d, s.e + t.e⟩

/-- The blocks of a padded message. -/
def blocks (padded : List UInt8) : List (List UInt8) :=
  (List.range (padded.length / 64)).map fun i => (padded.drop (64 * i)).take 64

/-- The digest of a message, as a number of 160 bits. -/
def digest (message : List UInt8) : Nat :=
  let s := (blocks (pad message)).foldl compress initial
  [s.a, s.b, s.c, s.d, s.e].foldl (fun n word => n * 2 ^ 32 + word.toNat) 0

end Metrology.Sha1
