import Metrology.Identifier.Uuid
import Metrology.Text.Split

/-!
# Socket addresses

A socket address is an internet address with the number of an endpoint on it,
joined by a colon.

An address of version 4 is four decimal numbers joined by points, none above
255 and none with a zero in front. One of version 6 is eight hexadecimal numbers
of at most four digits joined by colons. It stands in brackets, perhaps with the
number of a zone. Two colons stand for a run of zeros in it, and an address of
version 4 may stand for its last two numbers. When an address of version 6 is
written, two colons take the place of the first of its longest runs of zeros,
unless that is a single zero.

Every reader below takes something off the front of a list of characters and
leaves the rest.

## Main definitions

* `SocketAddress`: An internet address with the number of an endpoint.
* `SocketAddress.read?`: Reading an address.
* `SocketAddress.text`: The text of an address.
-/

namespace Metrology

/-- An internet address with the number of an endpoint. -/
inductive SocketAddress where
  | version4 (octets : List Nat) (portNumber : Nat)
  | version6 (groups : List Nat) (zone portNumber : Nat)
  deriving DecidableEq, Repr

namespace SocketAddress

/-- Takes a decimal number up to a bound. -/
def readDecimal? (bound : Nat) (cs : List Char) : Option (Nat × List Char) := do
  let digits := cs.takeWhile Char.isDigit
  let value := Nat.ofDigitChars 10 digits 0
  guard (!digits.isEmpty && value ≤ bound)
  return (value, cs.dropWhile Char.isDigit)

/-- Takes one number of an address of version 4. -/
def readOctet? (cs : List Char) : Option (Nat × List Char) := do
  let digits := cs.takeWhile Char.isDigit
  guard (digits.length ≤ 3 && !(digits.head? = some '0' && 1 < digits.length))
  readDecimal? 255 cs

def isHexDigit (c : Char) : Bool := (Uuid.hexValue? c).isSome

/-- Takes one number of an address of version 6. -/
def readGroup? (cs : List Char) : Option (Nat × List Char) := do
  let digits := cs.takeWhile isHexDigit
  guard (!digits.isEmpty && digits.length ≤ 4)
  let value ← digits.foldlM (fun value c => (Uuid.hexValue? c).map (value * 16 + ·)) 0
  return (value, cs.dropWhile isHexDigit)

/-- Takes a given character. -/
def expect? (c : Char) : List Char → Option (List Char)
  | [] => none
  | d :: rest => if d = c then some rest else none

/-- Takes a separator unless it is the first item that is to follow. -/
def separate? (c : Char) (first : Bool) (cs : List Char) : Option (List Char) :=
  if first then some cs else expect? c cs

/-- Takes `count` numbers joined by points. -/
def readOctets? : (count : Nat) → (first : Bool) → List Char → Option (List Nat × List Char)
  | 0, _, cs => some ([], cs)
  | count + 1, first, cs => do
    let (octet, cs) ← readOctet? (← separate? '.' first cs)
    let (octets, cs) ← readOctets? count false cs
    return (octet :: octets, cs)

/-- Takes an address of version 4. -/
def readVersion4? (cs : List Char) : Option (List Nat × List Char) := readOctets? 4 true cs

/-- The two groups of an address of version 4. -/
def embed (octets : List Nat) : List Nat :=
  match octets with
  | [a, b, c, d] => [a * 256 + b, c * 256 + d]
  | _ => []

/-- Takes as many groups as there are, up to `limit`, and tells whether an
    address of version 4 made the last two. -/
def readGroups : (limit : Nat) → (first : Bool) → List Char → (List Nat × Bool) × List Char
  | 0, _, cs => (([], false), cs)
  | limit + 1, first, cs =>
    -- An address of version 4 takes the place of two groups.
    match if 0 < limit then (separate? ':' first cs).bind readVersion4? else none with
    | some (octets, rest) => ((embed octets, true), rest)
    | none =>
      match (separate? ':' first cs).bind readGroup? with
      | none => (([], false), cs)
      | some (group, rest) =>
        let ((groups, embedded), rest) := readGroups limit false rest
        ((group :: groups, embedded), rest)

/-- Takes an address of version 6. An address of version 4 may not stand before
    the two colons, which stand for one zero at least. -/
def readVersion6? (cs : List Char) : Option (List Nat × List Char) := do
  let ((head, embedded), cs) := readGroups 8 true cs
  if head.length = 8 then return (head, cs)
  guard !embedded
  let cs ← expect? ':' (← expect? ':' cs)
  let ((tail, _), cs) := readGroups (7 - head.length) true cs
  return (head ++ List.replicate (8 - head.length - tail.length) 0 ++ tail, cs)

/-- Takes a colon and the number of an endpoint. -/
def readPortNumber? (cs : List Char) : Option (Nat × List Char) := do
  readDecimal? 65535 (← expect? ':' cs)

/-- Takes the number of a zone, or zero without one. -/
def readZone (cs : List Char) : Nat × List Char :=
  ((expect? '%' cs).bind (readDecimal? (2 ^ 32 - 1))).getD (0, cs)

def readSocket4? (cs : List Char) : Option (SocketAddress × List Char) := do
  let (octets, cs) ← readVersion4? cs
  let (portNumber, cs) ← readPortNumber? cs
  return (version4 octets portNumber, cs)

def readSocket6? (cs : List Char) : Option (SocketAddress × List Char) := do
  let (groups, cs) ← readVersion6? (← expect? '[' cs)
  let (zone, cs) := readZone cs
  let (portNumber, cs) ← readPortNumber? (← expect? ']' cs)
  return (version6 groups zone portNumber, cs)

/-- Reads a whole text as a socket address. -/
def read? (text : String) : Option SocketAddress := do
  let cs := text.toList
  let (address, rest) ← (readSocket4? cs).or (readSocket6? cs)
  guard rest.isEmpty
  return address

/-- Numbers joined by points. -/
def octetsText (octets : List Nat) : String := ".".intercalate (octets.map toString)

/-- Hexadecimal numbers joined by colons. -/
def groupsText (groups : List Nat) : String :=
  ":".intercalate (groups.map fun group => String.ofList (Nat.toDigits 16 group))

/-- How many zeros a list begins with. -/
def zeroRun (groups : List Nat) : Nat := (groups.takeWhile (· = 0)).length

/-- Where the first longest run of zeros begins, and its length. `index` is the
    place of the list, and the best run so far is given. -/
def longestRun (best : Nat × Nat) : (index : Nat) → List Nat → Nat × Nat
  | _, [] => best
  | index, group :: groups =>
    let run := zeroRun (group :: groups)
    longestRun (if best.2 < run then (index, run) else best) (index + 1) groups

/-- The text of an address of version 6. -/
def version6Text (groups : List Nat) : String :=
  match groups with
  | [0, 0, 0, 0, 0, 0xffff, high, low] =>
    "::ffff:" ++ octetsText [high / 256, high % 256, low / 256, low % 256]
  | _ =>
    let (start, length) := longestRun (0, 0) 0 groups
    if 1 < length then
      groupsText (groups.take start) ++ "::" ++ groupsText (groups.drop (start + length))
    else groupsText groups

/-- The text of a socket address. -/
def text : SocketAddress → String
  | version4 octets portNumber => octetsText octets ++ ":" ++ toString portNumber
  | version6 groups zone portNumber =>
    "[" ++ version6Text groups ++ (if zone = 0 then "" else "%" ++ toString zone) ++ "]:" ++
      toString portNumber

end SocketAddress

end Metrology
