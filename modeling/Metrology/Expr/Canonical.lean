import Metrology.Expr.Basic

/-!
# Canonical text of a formula

The text that shows the structure of a tree: every operation stands in
parentheses of its own, so no rule of precedence is needed to read it. It is
the form in which formulas are compared, and the key under which their
derivatives are remembered.

## Main definitions

* `Expr.canonical`: The canonical text of a tree.
-/

namespace Metrology.Expr

variable {α : Type} [Arithmetic α] [Written α]

/-- The text of a literal. A negative one, which no formula contains but
    differentiation can produce, stands in parentheses. -/
def literalText (value : α) : String :=
  if Arithmetic.less value Arithmetic.zero then "(" ++ Written.literal value ++ ")"
  else Written.literal value

/-- The canonical text of a tree. -/
def canonical : Expr α → String
  | number value => literalText value
  | symbol name => name
  | binary op left right =>
    "(" ++ left.canonical ++ " " ++ op.sign.toString ++ " " ++ right.canonical ++ ")"
  | negate operand => "(- " ++ operand.canonical ++ ")"
  | call function argument => function ++ "(" ++ argument.canonical ++ ")"

end Metrology.Expr
