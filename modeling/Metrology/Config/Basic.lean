import Metrology.Config.Address
import Metrology.Scalar.Double

/-!
# Configuration of a server

Where a server listens and which gravitational acceleration its sessions start
with. Both may be given as texts; a text that cannot be used is as good as
none.

## Main definitions

* `Config`: The configuration.
* `Config.ofTexts`: The configuration of two texts.
-/

namespace Metrology

/-- The configuration of a server. -/
structure Config where
  address : SocketAddress
  /-- The acceleration of new sessions, in metres per second squared. -/
  gravity : Float

namespace Config

/-- The configuration where nothing is given. -/
def standard : Config := ⟨.version4 [127, 0, 0, 1] 3000, 9.8⟩

/-- A text as a finite positive number. -/
def positive? (text : String) : Option Float :=
  match Numeral.read? text with
  | some numeral =>
    let x := numeral.toFloat
    if x.isFinite && 0.0 < x then some x else none
  | none => none

/-- The configuration of two texts. -/
def ofTexts (address gravity : Option String) : Config :=
  ⟨(address.bind SocketAddress.read?).getD standard.address,
    (gravity.bind positive?).getD standard.gravity⟩

end Config

/-- The version of the protocol that sessions speak. -/
def version : String := "0.1.0"

end Metrology
