import Metrology.Decimal.Shortest

/-!
# Number layouts

How the digits of a number are laid out on the page: which sizes are written
positionally and which with a power of ten, and whether a whole number keeps a
`.0` that marks it as a scalar. Three layouts are in use. Formula literals keep
the `.0` and turn to powers of ten early, quantities in messages are always
positional, and JSON numbers follow the habit of that format.

## Main definitions

* `Layout`: The choices that a way of writing numbers makes.
* `Layout.literal`: Literals of formulas.
* `Layout.plain`: Numbers in running text.
* `Layout.json`: Numbers in JSON.
* `Layout.decimal`: A decimal number written in a layout.
* `Layout.float?`: A double written in a layout, if it is finite.
* `Layout.float`: A double written in a layout, with words for the rest.
-/

namespace Metrology

/-- The choices that a way of writing numbers makes. -/
structure Layout where
  /-- Whether a number is written without a power of ten, by the exponent of
      its first digit. -/
  positional : Int → Bool
  /-- Whether a whole number ends in `.0` when written positionally. -/
  pointZero : Bool

namespace Layout

/-- Formula literals: positional from a ten-thousandth up to ten quadrillion. -/
def literal : Layout := ⟨fun decade => -4 ≤ decade && decade < 16, true⟩

/-- Running text: always positional, and whole numbers without a point. -/
def plain : Layout := ⟨fun _ => true, false⟩

/-- JSON numbers: as literals, with one more place after the point. -/
def json : Layout := ⟨fun decade => -5 ≤ decade && decade < 16, true⟩

/-- A decimal number written in a layout. -/
def decimal (layout : Layout) (d : Decimal) : String :=
  let digits := Nat.toDigits 10 d.coefficient
  let decade : Int := digits.length - 1 + d.exponent
  let zeros (n : Nat) : List Char := List.replicate n '0'
  let body :=
    if layout.positional decade then
      if 0 ≤ d.exponent then
        digits ++ zeros d.exponent.toNat ++ (if layout.pointZero then ".0".toList else [])
      else if 0 ≤ decade then
        let whole := (decade + 1).toNat
        digits.take whole ++ '.' :: digits.drop whole
      else '0' :: '.' :: zeros (-decade - 1).toNat ++ digits
    else
      let fraction := digits.drop 1
      digits.take 1 ++ (if fraction.isEmpty then [] else '.' :: fraction) ++
        'e' :: (toString decade).toList
  String.ofList body

/-- A finite double, written with the fewest digits that read back as it. -/
def float? (layout : Layout) (x : Float) : Option String :=
  match Binary64.ofFloat x with
  | .nan | .infinite _ => none
  | .finite negative significand exponent =>
    let magnitude : Decimal :=
      if significand = 0 then ⟨0, 0⟩ else (Rounds.ofBinary significand exponent).shortest
    some ((if negative then "-" else "") ++ layout.decimal magnitude)

/-- A double, written with the fewest digits that read back as it. -/
def float (layout : Layout) (x : Float) : String :=
  match Binary64.ofFloat x with
  | .nan => "NaN"
  | .infinite negative => if negative then "-inf" else "inf"
  | .finite .. => (layout.float? x).getD ""

end Layout

end Metrology
