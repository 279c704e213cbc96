/-!
# Dimensions

The dimension of a quantity says how often each of the seven SI base quantities
goes into it. The exponents are small integers: an operation whose result would
leave the range of eight-bit integers reports that instead of answering.

## Main definitions

* `Dimension`: Exponents of the seven SI base quantities.
* `Dimension.mul`, `Dimension.div`, `Dimension.pow`: The checked operations.
* `DimensionOverflow`: The operation that left the range.

## Theorems

* `Dimension.check_eq_ok_iff`: A dimension passes the check exactly when every
  exponent is in range.
-/

namespace Metrology

/-- Exponents of the seven SI base quantities. -/
structure Dimension where
  mass : Int := 0
  length : Int := 0
  time : Int := 0
  current : Int := 0
  temperature : Int := 0
  amount : Int := 0
  luminosity : Int := 0
  deriving DecidableEq, Repr

namespace Dimension

/-- The dimension of a plain number. -/
def one : Dimension := {}

/-- The exponents, in the order of the base quantities. -/
def exponents (d : Dimension) : List Int :=
  [d.mass, d.length, d.time, d.current, d.temperature, d.amount, d.luminosity]

/-- The dimension whose exponents combine those of two others. -/
def zipWith (f : Int → Int → Int) (a b : Dimension) : Dimension where
  mass := f a.mass b.mass
  length := f a.length b.length
  time := f a.time b.time
  current := f a.current b.current
  temperature := f a.temperature b.temperature
  amount := f a.amount b.amount
  luminosity := f a.luminosity b.luminosity

/-- The dimension with every exponent replaced. -/
def map (f : Int → Int) (d : Dimension) : Dimension := zipWith (fun e _ => f e) d d

/-- Whether an exponent fits into eight bits. -/
def inRange (exponent : Int) : Bool := -128 ≤ exponent && exponent ≤ 127

/-- The base quantities in the order of the exponents, by their symbols. -/
def symbols : List String := ["M", "L", "T", "I", "Θ", "N", "J"]

/-- The text of a dimension: the base quantities that go into it, with their
    exponents, or `1`. -/
def text (d : Dimension) : String :=
  if d = one then "1"
  else
    let parts := (symbols.zip d.exponents).filter fun part => part.2 ≠ 0
    " ".intercalate (parts.map fun part =>
      if part.2 = 1 then part.1 else part.1 ++ "^" ++ toString part.2)

end Dimension

/-- An operation on dimensions whose result is out of range. -/
inductive DimensionOverflow where
  | product (left right : Dimension)
  | quotient (left right : Dimension)
  | power (base : Dimension) (exponent : Int)
  deriving DecidableEq, Repr

/-- The operation as messages show it. -/
def DimensionOverflow.describe : DimensionOverflow → String
  | product left right => "(" ++ left.text ++ ") * (" ++ right.text ++ ")"
  | quotient left right => "(" ++ left.text ++ ") / (" ++ right.text ++ ")"
  | power base exponent => "(" ++ base.text ++ ")^" ++ toString exponent

namespace Dimension

/-- Passes a dimension on if all its exponents are in range. -/
def check (overflow : DimensionOverflow) (d : Dimension) : Except DimensionOverflow Dimension :=
  if d.exponents.all inRange then .ok d else .error overflow

/-- The dimension of a product. -/
def mul (a b : Dimension) : Except DimensionOverflow Dimension :=
  check (.product a b) (zipWith (· + ·) a b)

/-- The dimension of a quotient. -/
def div (a b : Dimension) : Except DimensionOverflow Dimension :=
  check (.quotient a b) (zipWith (· - ·) a b)

/-- The dimension of an integer power. -/
def pow (d : Dimension) (n : Int) : Except DimensionOverflow Dimension :=
  check (.power d n) (d.map (· * n))

theorem check_eq_ok_iff (overflow : DimensionOverflow) (d e : Dimension) :
    check overflow d = .ok e ↔ e = d ∧ ∀ exponent ∈ d.exponents, inRange exponent = true := by
  unfold check
  split
  · next h =>
    rw [List.all_eq_true] at h
    constructor
    · intro heq
      exact ⟨(Except.ok.inj heq).symm, h⟩
    · rintro ⟨rfl, -⟩
      rfl
  · next h =>
    rw [List.all_eq_true] at h
    constructor
    · intro heq
      cases heq
    · rintro ⟨-, hall⟩
      exact absurd hall h

end Dimension

end Metrology
