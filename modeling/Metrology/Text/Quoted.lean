import Metrology.Text.Visible

/-!
# Quoted characters and words

How messages quote a piece of the input. A visible character stands for itself.
The quotation mark in use, the backslash and the common control characters are
written with a backslash, and every other character by its code point in
hexadecimal digits between braces.

## Main definitions

* `Text.escape`: One character as it stands inside quotation marks.
* `Text.quoteChar`: A character between single quotation marks.
* `Text.quoteWord`: A text between double quotation marks.
-/

namespace Metrology.Text

/-- One character as it stands between the given quotation marks. -/
def escape (mark c : Char) : List Char :=
  if c = '\x00' then ['\\', '0']
  else if c = '\t' then ['\\', 't']
  else if c = '\r' then ['\\', 'r']
  else if c = '\n' then ['\\', 'n']
  else if c = mark ∨ c = '\\' then ['\\', c]
  else if isVisible c then [c]
  else ['\\', 'u', '{'] ++ Nat.toDigits 16 c.toNat ++ ['}']

/-- A character between single quotation marks. -/
def quoteChar (c : Char) : String := String.ofList ('\'' :: escape '\'' c ++ ['\''])

/-- A text between double quotation marks. -/
def quoteWord (text : String) : String :=
  String.ofList ('"' :: text.toList.flatMap (escape '"') ++ ['"'])

end Metrology.Text
