import Metrology.Expr.Basic
import Metrology.Quantity.Basic

/-!
# Evaluating formulas

The value of a formula tree as a quantity, given quantities for its symbols. A
symbol to which nothing is bound may still be a built-in constant. Operands are
evaluated from left to right before the operation they belong to, and the first
failure is the answer.

Functions other than the square root and the absolute value take and give plain
numbers.

## Main definitions

* `Bindings`: What is bound to each symbol.
* `EvalError`: Why a tree has no value.
* `Expr.evaluate`: The value of a tree.
-/

namespace Metrology

/-- What is bound to each symbol. -/
abbrev Bindings (α : Type) := String → Option (Quantity α)

namespace Bindings

variable {α : Type}

/-- Nothing bound to any symbol. -/
def empty : Bindings α := fun _ => none

/-- The same bindings with a quantity bound to one symbol. -/
def bind (bindings : Bindings α) (name : String) (q : Quantity α) : Bindings α :=
  fun other => if other = name then some q else bindings other

end Bindings

/-- What is wrong with the argument of an operation. -/
inductive InvalidArgument (α : Type) where
  | powerNotReal (base exponent : Quantity α)
  | sqrtOfNegative
  /-- The argument of an inverse function must lie between -1 and 1. -/
  | outsideUnitInterval (function : String)
  | logarithmOfNonPositive (function : String)

/-- Why a tree has no value. -/
inductive EvalError (α : Type) where
  | undefinedSymbol (name : String)
  | unit (error : UnitError α)
  | divisionByZero
  | unknownFunction (name : String)
  | invalidArgument (reason : InvalidArgument α)

section Messages

variable {α : Type} [Arithmetic α] [Written α]

/-- What a message says about an argument. -/
def InvalidArgument.describe : InvalidArgument α → String
  | powerNotReal base exponent => base.text ++ " raised to " ++ exponent.text ++ " is not real"
  | sqrtOfNegative => "sqrt of negative number"
  | outsideUnitInterval function => function ++ " argument must be in [-1, 1]"
  | logarithmOfNonPositive function => function ++ " of non-positive number"

/-- The message of an evaluation error. -/
def EvalError.message : EvalError α → String
  | undefinedSymbol name => "Undefined symbol " ++ name
  | unit error => "Units do not match: " ++ error.message
  | divisionByZero => "Division by zero"
  | unknownFunction name => "Unknown function: " ++ name
  | invalidArgument reason => "Invalid argument: " ++ reason.describe

end Messages

namespace Expr

variable {α : Type} [Scalar α]

open Arithmetic (zero one less lessEq isUndefined)

/-- The outcome of an operation on units, as an outcome of evaluation. -/
def liftUnit {β : Type} : Except (UnitError α) β → Except (EvalError α) β
  | .ok value => .ok value
  | .error error => .error (.unit error)

/-- An inverse function, defined from -1 to 1. -/
def applyInverse (function : String) (f : α → α) (x : α) : Except (EvalError α) α :=
  if lessEq (-one) x && lessEq x one then .ok (f x)
  else .error (.invalidArgument (.outsideUnitInterval function))

/-- A logarithm, defined on positive numbers. -/
def applyLogarithm (function : String) (f : α → α) (x : α) : Except (EvalError α) α :=
  if lessEq x zero then .error (.invalidArgument (.logarithmOfNonPositive function))
  else .ok (f x)

/-- A function of plain numbers. -/
def applyScalar (function : String) (x : α) : Except (EvalError α) α :=
  match function with
  | "sin" => .ok (Scalar.sin x)
  | "cos" => .ok (Scalar.cos x)
  | "tan" => .ok (Scalar.tan x)
  | "asin" => applyInverse function Scalar.asin x
  | "acos" => applyInverse function Scalar.acos x
  | "atan" => .ok (Scalar.atan x)
  | "ln" => applyLogarithm function Scalar.ln x
  | "log" => applyLogarithm function Scalar.ln x
  | "log10" => applyLogarithm function Scalar.log10 x
  | "exp" => .ok (Scalar.exp x)
  | _ => .error (.unknownFunction function)

/-- A function of a quantity. -/
def applyFunction (function : String) (q : Quantity α) : Except (EvalError α) (Quantity α) :=
  if function = "sqrt" then
    if less q.value zero then .error (.invalidArgument .sqrtOfNegative) else liftUnit q.sqrt
  else if function = "abs" then .ok q.abs
  else do
    let x ← liftUnit q.dimensionless
    return .number (← applyScalar function x)

/-- A quotient, refused when the divisor is zero. -/
def applyQuotient (p q : Quantity α) : Except (EvalError α) (Quantity α) :=
  if q.isZero then .error .divisionByZero else liftUnit (p.div q)

/-- A power, refused when it is no real number. -/
def applyPower (p q : Quantity α) : Except (EvalError α) (Quantity α) := do
  let result ← liftUnit (p.powReal q)
  if isUndefined result.value then .error (.invalidArgument (.powerNotReal p q)) else .ok result

/-- An operation on two quantities. -/
def applyBinary : BinaryOp → Quantity α → Quantity α → Except (EvalError α) (Quantity α)
  | .add, p, q => liftUnit (p.add q)
  | .sub, p, q => liftUnit (p.sub q)
  | .mul, p, q => liftUnit (p.mul q)
  | .div, p, q => applyQuotient p q
  | .pow, p, q => applyPower p q

/-- The value of a symbol. -/
def lookup (bindings : Bindings α) (name : String) : Except (EvalError α) (Quantity α) :=
  match bindings name with
  | some q => .ok q
  | none =>
    match Constant.ofName? name with
    | some constant => .ok (.number constant.value)
    | none => .error (.undefinedSymbol name)

/-- The value of a tree. -/
def evaluate (bindings : Bindings α) : Expr α → Except (EvalError α) (Quantity α)
  | number value => .ok (.number value)
  | symbol name => lookup bindings name
  | binary op left right => do
    let p ← left.evaluate bindings
    let q ← right.evaluate bindings
    applyBinary op p q
  | negate operand => do
    let q ← operand.evaluate bindings
    return q.neg
  | call function argument => do
    let q ← argument.evaluate bindings
    applyFunction function q

end Expr

end Metrology
