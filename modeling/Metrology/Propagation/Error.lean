import Metrology.Expr.Evaluation
import Metrology.Expr.Token

/-!
# Failures of propagation

Why a mean, an uncertainty or a count of digits could not be found.

## Main definitions

* `PropagationError`: The causes.
* `PropagationError.ofEval`: A failed evaluation as a cause.
* `PropagationError.message`: The text of a cause.
-/

namespace Metrology

/-- Why a result of the measurement graph could not be found. -/
inductive PropagationError (α : Type) where
  /-- No formula has been entered yet. -/
  | emptyFormula
  | unparsableFormula (error : ParseError)
  | undefinedMeasurement (symbol : String)
  /-- The measurements on the way, ending with the one that closes the cycle. -/
  | cyclicReference (labels : List String)
  | unitMismatch (error : UnitError α)
  /-- A unit as typed, and why it is none. -/
  | invalidUnit (source : String) (error : UnitError α)
  | invalidExpression (error : EvalError α)

namespace PropagationError

variable {α : Type}

/-- A failed evaluation. An undefined symbol is a measurement that is not
    there. -/
def ofEval : EvalError α → PropagationError α
  | .undefinedSymbol name => undefinedMeasurement name
  | .unit error => unitMismatch error
  | error => invalidExpression error

/-- The message of a failure. -/
def message [Arithmetic α] [Written α] : PropagationError α → String
  | emptyFormula => "Formula is empty"
  | unparsableFormula error => "Formula could not be parsed: " ++ error.message
  | undefinedMeasurement symbol => "Undefined measurement: " ++ symbol
  | cyclicReference labels => "Cyclic reference: " ++ " → ".intercalate labels
  | unitMismatch error => "Units do not match: " ++ error.message
  | invalidUnit source error => "Invalid unit: " ++ source ++ ": " ++ error.message
  | invalidExpression error => "Invalid expression: " ++ error.message

end PropagationError

end Metrology
