/-!
# Ranges of characters

A property of characters is given by the ranges of code points that have it, in
ascending order. This file holds the one operation on such a table.

## Main definitions

* `Text.CharRange`: A first and a last code point.
* `Text.inRanges`: Whether a character lies in one of several ranges.

## Theorems

* `Text.inRanges_of_mem`: A range of the table vouches for its characters.
-/

namespace Metrology.Text

/-- The code points from the first up to and including the last. -/
abbrev CharRange := Nat × Nat

/-- Whether a character lies in one of several ranges. -/
def inRanges (ranges : List CharRange) (c : Char) : Bool :=
  ranges.any fun range => range.1 ≤ c.toNat && c.toNat ≤ range.2

theorem inRanges_of_mem {ranges : List CharRange} {range : CharRange} {c : Char}
    (hmem : range ∈ ranges) (hfirst : range.1 ≤ c.toNat) (hlast : c.toNat ≤ range.2) :
    inRanges ranges c = true :=
  List.any_eq_true.mpr ⟨range, hmem, by simp [hfirst, hlast]⟩

end Metrology.Text
