/-!
# Powers

Powers with a natural exponent are those of the core library. Algebra brings
powers of its own for every monoid, which are equal but stand for something
else. Definitions mean the same with and without it, since the instance below
comes first.

## Main definitions

* `Power.natural`: Powers of natural numbers and of integers.
-/

namespace Metrology.Power

/-- Powers of natural numbers and of integers. -/
@[default_instance 20000]
instance (priority := 20000) natural {α : Type} [NatPow α] : Pow α Nat := instPowNat

end Metrology.Power
