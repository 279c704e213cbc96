import Metrology.Text.Numeric

/-!
# Grouped subscripts

A subscript of several characters may be written in parentheses: `x_(12)` is
the symbol `x_12`. Only letters and numerals may stand between the parentheses;
any other group is left as it is, and is then read as a call or a product.

A group holds no underscore, so none can begin inside another one, and going
through a text only needs to remember whether a group is open.

## Main definitions

* `Subscript.closes`: Whether a group that has just been opened is a subscript.
* `Subscript.flatten`: A text with its grouped subscripts written plainly.
-/

namespace Metrology.Subscript

/-- Whether letters and numerals only lead up to a closing parenthesis. -/
def closes (cs : List Char) : Bool := (cs.dropWhile Text.isAlphanumeric).head? = some ')'

/-- Drops the parentheses of grouped subscripts. The flag says that the text
    begins inside such a group. -/
def flattenChars : Bool → List Char → List Char
  | _, [] => []
  | inside, '_' :: '(' :: rest =>
    if closes rest then '_' :: flattenChars true rest
    else '_' :: '(' :: flattenChars inside rest
  | inside, c :: rest =>
    if inside ∧ c = ')' then flattenChars false rest else c :: flattenChars inside rest

/-- A text with its grouped subscripts written plainly. -/
def flatten (text : String) : String := String.ofList (flattenChars false text.toList)

end Metrology.Subscript
