import Metrology.Quantity.Reader

/-!
# Type-B uncertainty

Uncertainty that is not found by statistics: the limits of an instrument, say,
entered as a text together with the shape of the distribution that is assumed
within the limits. The shape decides how much of a limit counts as a standard
uncertainty.

## Main definitions

* `Distribution`: The shapes.
* `Distribution.coefficient`: The standard uncertainty for a limit of one.
* `TypeBEntry`: A limit as typed, with its shape.
* `TypeBEntry.magnitude?`: The limit as a number of the measurement's unit.
* `TypeBEntry.standardUncertainty?`: What the entry contributes.
-/

namespace Metrology

/-- The shape of a distribution within its limits. -/
inductive Distribution where
  | normal
  | uniform
  | triangular
  /-- No shape: the value is itself a standard uncertainty. -/
  | none
  deriving DecidableEq, Repr, Inhabited

namespace Distribution

def name : Distribution → String
  | normal => "normal"
  | uniform => "uniform"
  | triangular => "triangular"
  | none => "none"

def ofName? (name : String) : Option Distribution :=
  if name = "normal" then some normal
  else if name = "uniform" then some uniform
  else if name = "triangular" then some triangular
  else if name = "none" then some none
  else .none

/-- The standard uncertainty for a limit of one. -/
def coefficient {α : Type} [Scalar α] : Distribution → α
  | normal => Arithmetic.one / Arithmetic.ofNat 3
  | uniform => Arithmetic.one / Scalar.sqrt (Arithmetic.ofNat 3)
  | triangular => Arithmetic.one / Scalar.sqrt (Arithmetic.ofNat 6)
  | none => Arithmetic.one

end Distribution

/-- A type-B limit as typed, with the shape of its distribution. -/
structure TypeBEntry where
  value : String := ""
  distribution : Distribution := .normal
  deriving DecidableEq, Repr, Inhabited

namespace TypeBEntry

/-- An entry without a limit. -/
def blank : TypeBEntry := {}

variable {α : Type} [Scalar α]

/-- The limit as a number of the measurement's unit. A plain number is taken to
    be in that unit. Blank entries, entries that cannot be read or converted,
    and zeros have no magnitude and contribute nothing. -/
def magnitude? (entry : TypeBEntry) (unit : String) : Option α :=
  if Text.isBlankText entry.value then none
  else
    match Quantity.read entry.value with
    | .error _ => none
    | .ok q =>
      if q.isZero then none
      else if q.isPlain then some q.value
      else if Text.isBlankText unit then none
      else (q.numberInText unit).toOption

/-- Blank entries are valid; anything else must have a magnitude. -/
def isValid (α : Type) [Scalar α] (entry : TypeBEntry) (unit : String) : Bool :=
  Text.isBlankText entry.value || (entry.magnitude? (α := α) unit).isSome

/-- The standard uncertainty that an entry contributes. -/
def standardUncertainty? (entry : TypeBEntry) (unit : String) : Option α :=
  (entry.magnitude? unit).map (· * entry.distribution.coefficient)

end TypeBEntry

end Metrology
