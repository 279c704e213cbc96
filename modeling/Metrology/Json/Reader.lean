import Metrology.Identifier.Uuid
import Metrology.Json.Value

/-!
# Reading JSON

A reader takes a value off the front of a list of characters and leaves the
rest. Blanks are spaces, tabs, and the two line ends. The text of a value has
nothing but blanks around it.

Reading a value uses up at least one character, so the length of the text is
enough fuel for any nesting.

## Main definitions

* `Json.readNumber?`, `Json.readString?`: Reading the leaves.
* `Json.readValue?`: Reading a value.
* `Json.Value.read?`: Reading a whole text.
-/

namespace Metrology.Json

def isBlank (c : Char) : Bool := c = ' ' || c = '\t' || c = '\n' || c = '\r'

def skipBlanks (cs : List Char) : List Char := cs.dropWhile isBlank

/-- Takes digits, at least one. -/
def readDigits? (cs : List Char) : Option (List Char × List Char) :=
  let digits := cs.takeWhile Char.isDigit
  if digits.isEmpty then none else some (digits, cs.dropWhile Char.isDigit)

/-- Takes the power of ten of a number, if there is one. -/
def readExponent? : List Char → Option (Option (Bool × List Char) × List Char)
  | [] => some (none, [])
  | mark :: rest =>
    if mark = 'e' ∨ mark = 'E' then
      let (negative, rest) := match rest with
        | '-' :: rest => (true, rest)
        | '+' :: rest => (false, rest)
        | rest => (false, rest)
      (readDigits? rest).map fun (digits, rest) => (some (negative, digits), rest)
    else some (none, mark :: rest)

/-- Takes the digits behind the point of a number, if there is one. -/
def readFraction? : List Char → Option (Bool × List Char × List Char)
  | '.' :: rest => (readDigits? rest).map fun (digits, rest) => (true, digits, rest)
  | cs => some (false, [], cs)

/-- Takes a number. It has a zero in front only if that is its one whole
    digit. -/
def readNumber? (cs : List Char) : Option (Number × List Char) := do
  let (negative, cs) := match cs with
    | '-' :: rest => (true, rest)
    | cs => (false, cs)
  let (whole, cs) ← readDigits? cs
  guard (whole.head? ≠ some '0' ∨ whole.length = 1)
  let (hasPoint, fraction, cs) ← readFraction? cs
  let (exponent, cs) ← readExponent? cs
  return (⟨negative, whole, fraction, exponent, hasPoint⟩, cs)

/-- The character that a letter behind a backslash stands for. -/
def escaped? (c : Char) : Option Char :=
  if c = '"' ∨ c = '\\' ∨ c = '/' then some c
  else if c = 'b' then some '\x08'
  else if c = 'f' then some '\x0c'
  else if c = 'n' then some '\n'
  else if c = 'r' then some '\r'
  else if c = 't' then some '\t'
  else none

/-- The code unit of four hexadecimal digits. -/
def codeUnit? (cs : List Char) : Option Nat :=
  if cs.length = 4 then
    cs.foldlM (fun value c => (Uuid.hexValue? c).map (value * 16 + ·)) 0
  else none

/-- Takes the rest of a string and its closing quotation mark, as code points
    and halves of surrogate pairs. `skip` counts the characters of an escape
    that has been taken already. -/
def readUnits? : (skip : Nat) → List Char → Option (List Nat × List Char)
  | _, [] => none
  | skip + 1, _ :: rest => readUnits? skip rest
  | 0, c :: rest =>
    if c = '"' then some ([], rest)
    else if c.toNat < 0x20 then none
    else if c = '\\' then
      match rest.head? with
      | some 'u' => do
        let unit ← codeUnit? ((rest.drop 1).take 4)
        let (units, rest) ← readUnits? 5 rest
        return (unit :: units, rest)
      | some letter => do
        let meaning ← escaped? letter
        let (units, rest) ← readUnits? 1 rest
        return (meaning.toNat :: units, rest)
      | none => none
    else do
      let (units, rest) ← readUnits? 0 rest
      return (c.toNat :: units, rest)

/-- Joins the halves of surrogate pairs; none if one stands alone. -/
def joinPairs? : List Nat → Option (List Char)
  | [] => some []
  | [unit] => if 0xd800 ≤ unit ∧ unit < 0xe000 then none else some [Char.ofNat unit]
  | unit :: next :: rest =>
    if 0xd800 ≤ unit ∧ unit < 0xdc00 then
      if 0xdc00 ≤ next ∧ next < 0xe000 then
        (joinPairs? rest).map
          (Char.ofNat (0x10000 + (unit - 0xd800) * 0x400 + (next - 0xdc00)) :: ·)
      else none
    else if 0xdc00 ≤ unit ∧ unit < 0xe000 then none
    else (joinPairs? (next :: rest)).map (Char.ofNat unit :: ·)

/-- Takes a string behind its opening quotation mark. -/
def readString? (cs : List Char) : Option (Option String × List Char) :=
  (readUnits? 0 cs).map fun (units, rest) => ((joinPairs? units).map String.ofList, rest)

/-- Takes a word off the front. -/
def readWord? (word : String) (cs : List Char) : Option (List Char) :=
  word.toList.isPrefixOf? cs

mutual

/-- Takes a value. -/
def readValue? : (fuel : Nat) → List Char → Option (Value × List Char)
  | 0, _ => none
  | fuel + 1, cs =>
    match skipBlanks cs with
    | '"' :: rest => (readString? rest).map fun (s, rest) => (.string s, rest)
    | '[' :: rest =>
      match skipBlanks rest with
      | ']' :: rest => some (.array [], rest)
      | rest => (readItems? fuel rest).map fun (items, rest) => (.array items, rest)
    | '\x7b' :: rest =>
      match skipBlanks rest with
      | '\x7d' :: rest => some (.object [], rest)
      | rest => (readMembers? fuel rest).map fun (members, rest) => (.object members, rest)
    | 'n' :: rest => (readWord? "ull" rest).map fun rest => (.null, rest)
    | 't' :: rest => (readWord? "rue" rest).map fun rest => (.bool true, rest)
    | 'f' :: rest => (readWord? "alse" rest).map fun rest => (.bool false, rest)
    | cs => (readNumber? cs).map fun (n, rest) => (.number n, rest)

/-- Takes the items of an array, of which there is one, and the bracket behind
    them. -/
def readItems? : (fuel : Nat) → List Char → Option (List Value × List Char)
  | 0, _ => none
  | fuel + 1, cs => do
    let (item, rest) ← readValue? fuel cs
    match skipBlanks rest with
    | ',' :: rest =>
      let (items, rest) ← readItems? fuel rest
      return (item :: items, rest)
    | ']' :: rest => return ([item], rest)
    | _ => none

/-- Takes the members of an object, of which there is one, and the brace behind
    them. -/
def readMembers? : (fuel : Nat) → List Char → Option (List (Option String × Value) × List Char)
  | 0, _ => none
  | fuel + 1, cs => do
    let '"' :: rest := skipBlanks cs | none
    let (key, rest) ← readString? rest
    let ':' :: rest := skipBlanks rest | none
    let (value, rest) ← readValue? fuel rest
    match skipBlanks rest with
    | ',' :: rest =>
      let (members, rest) ← readMembers? fuel rest
      return ((key, value) :: members, rest)
    | '\x7d' :: rest => return ([(key, value)], rest)
    | _ => none

end

/-- Reads a whole text as one value. -/
def Value.read? (text : String) : Option Value := do
  let cs := text.toList
  let (value, rest) ← readValue? (2 * cs.length + 1) cs
  guard (skipBlanks rest).isEmpty
  return value

end Metrology.Json
