import Metrology.Text.Range

/-!
# Blanks

The characters that separate and surround words: those with the Unicode
property `White_Space`. Besides the space they are the five control characters
from tab to carriage return, the next-line character, and the fixed and
non-breaking spaces, line and paragraph separators beyond ASCII.

## Main definitions

* `Text.isBlank`: Whether a character is a blank.
* `Text.trim`: A text without the blanks at its two ends.
* `Text.isBlankText`: Whether a text holds blanks only.
-/

namespace Metrology.Text

/-- The code points with the property `White_Space`. -/
def blankRanges : List CharRange :=
  [(0x9, 0xD), (0x20, 0x20), (0x85, 0x85), (0xA0, 0xA0), (0x1680, 0x1680), (0x2000, 0x200A),
   (0x2028, 0x2029), (0x202F, 0x202F), (0x205F, 0x205F), (0x3000, 0x3000)]

/-- Whether a character is a blank. -/
def isBlank (c : Char) : Bool := inRanges blankRanges c

/-- The characters of a list without the blanks at its two ends. -/
def trimChars (cs : List Char) : List Char :=
  ((cs.dropWhile isBlank).reverse.dropWhile isBlank).reverse

/-- A text without the blanks at its two ends. -/
def trim (text : String) : String := String.ofList (trimChars text.toList)

/-- Whether a text holds nothing but blanks. -/
def isBlankText (text : String) : Bool := text.toList.all isBlank

end Metrology.Text
