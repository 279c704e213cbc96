import Metrology.Expr.Grammar
import Metrology.Text.Blank

/-!
# Names and formulas

A measurement is named by any text the user likes. The name can be used in
formulas when the text is a single symbol; any other text names the
measurement for the reader only.

A formula is kept as the user typed it, so that a text which cannot be read is
not lost. Blank text is no formula yet, which is not an error.

## Main definitions

* `Name`: A measurement's name as typed.
* `Name.symbol?`: The symbol under which formulas find the measurement.
* `Name.suggestedUnit?`: The unit that the first letter of a name suggests.
* `Formula`: A formula as typed.
* `Formula.read?`: The tree of a formula, or why there is none.
-/

namespace Metrology

/-- A measurement's name as typed. -/
structure Name where
  text : String
  deriving DecidableEq, Repr, Inhabited

namespace Name

/-- The symbol under which formulas find a measurement of this name, if the name
    is a single symbol. -/
def symbol? (name : Name) : Option String :=
  match Expr.read name.text with
  | .ok tree => tree.asSymbol?
  | .error _ => none

/-- The unit that the first letter of a name suggests. -/
def suggestedUnit? (name : String) : Option String :=
  match Text.trimChars name.toList with
  | [] => none
  | c :: _ =>
    if c = 'l' ∨ c = 'L' then some "cm"
    else if c = 't' then some "s"
    else if c = 'm' ∨ c = 'M' then some "g"
    else if c = 'F' then some "N"
    else if c = 'U' then some "V"
    else if c = 'I' then some "A"
    else none

end Name

/-- A formula as typed. -/
structure Formula where
  text : String
  deriving DecidableEq, Repr, Inhabited

namespace Formula

def isEmpty (formula : Formula) : Bool := Text.isBlankText formula.text

/-- The tree of a formula, or why it cannot be read; nothing for blank text. -/
def read? (formula : Formula) : Option (Except ParseError (Expr Decimal)) :=
  if formula.isEmpty then none else some (Expr.read formula.text)

end Formula

end Metrology
