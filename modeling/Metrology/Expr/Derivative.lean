import Metrology.Expr.Basic

/-!
# Symbolic derivatives

The partial derivative of a formula with respect to one of its symbols. The
tree of a derivative is built by operations that simplify as they go: a product
with a zero factor is zero, zero summands and unit factors are dropped, and
operations on two literals are carried out.

A term that does not depend on the variable thus becomes the literal zero and
disappears, instead of surviving as a zero with a unit. That keeps a derivative
dimensionally consistent when its symbols are bound to quantities.

## Main definitions

* `Expr.Simplified`: The operations that build simplified trees.
* `Expr.differentiate`: The partial derivative of a tree.
-/

namespace Metrology.Expr

variable {α : Type} [Scalar α]

open Arithmetic (isZero equal ofNat zero one)

namespace Simplified

def neg : Expr α → Expr α
  | number x => number (-x)
  | negate operand => operand
  | e => negate e

def add : Expr α → Expr α → Expr α
  | number x, number y => number (x + y)
  | number x, b => if isZero x then b else binary .add (number x) b
  | a, number y => if isZero y then a else binary .add a (number y)
  | a, b => binary .add a b

def sub : Expr α → Expr α → Expr α
  | number x, number y => number (x - y)
  | number x, b => if isZero x then neg b else binary .sub (number x) b
  | a, number y => if isZero y then a else binary .sub a (number y)
  | a, b => binary .sub a b

def mul : Expr α → Expr α → Expr α
  | number x, number y => number (x * y)
  | number x, b =>
    if isZero x then number zero
    else if equal x one then b
    else if equal x (-one) then neg b
    else binary .mul (number x) b
  | a, number y =>
    if isZero y then number zero
    else if equal y one then a
    else if equal y (-one) then neg a
    else binary .mul a (number y)
  | a, b => binary .mul a b

/-- A quotient of two literals is carried out unless the divisor is zero; zero
    divided by anything is zero. -/
def div : Expr α → Expr α → Expr α
  | number x, number y =>
    if !isZero y then number (x / y)
    else if isZero x then number zero
    else binary .div (number x) (number y)
  | number x, b => if isZero x then number zero else binary .div (number x) b
  | a, number y => if equal y one then a else binary .div a (number y)
  | a, b => binary .div a b

def pow : Expr α → Expr α → Expr α
  | number x, number y => number (Scalar.pow x y)
  | a, number y =>
    if isZero y then number one
    else if equal y one then a
    else binary .pow a (number y)
  | a, b => binary .pow a b

end Simplified

open Simplified

/-- Whether a tree is the literal zero. -/
def isZeroLiteral : Expr α → Bool
  | number x => isZero x
  | _ => false

/-- The derivative of a function at its argument `u`. A function that is not
    known gets a name that is not known either, so that evaluating the
    derivative reports it. -/
def outerDerivative (function : String) (u : Expr α) : Expr α :=
  let two : Expr α := number (ofNat 2)
  let unit : Expr α := number one
  match function with
  | "sin" => call "cos" u
  | "cos" => neg (call "sin" u)
  | "tan" => div unit (pow (call "cos" u) two)
  | "asin" => div unit (call "sqrt" (sub unit (pow u two)))
  | "acos" => neg (div unit (call "sqrt" (sub unit (pow u two))))
  | "atan" => div unit (add unit (pow u two))
  | "sqrt" => div unit (mul two (call "sqrt" u))
  | "abs" => div u (call "abs" u)
  | "ln" => div unit u
  | "log" => div unit u
  | "log10" => div unit (mul u (call "ln" (number (ofNat 10))))
  | "exp" => call "exp" u
  | other => call (other ++ "'") u

/-- The derivative of `base ^ exponent`, given the derivatives of both and
    whether each depends on the variable. -/
def powerDerivative (base exponent baseDerivative exponentDerivative : Expr α)
    (baseVaries exponentVaries : Bool) : Expr α :=
  match baseVaries, exponentVaries with
  | false, false => number zero
  | true, false =>
    mul (mul exponent (pow base (sub exponent (number one)))) baseDerivative
  | false, true => mul (mul (pow base exponent) (call "ln" base)) exponentDerivative
  | true, true =>
    mul (pow base exponent)
      (add (mul exponentDerivative (call "ln" base)) (div (mul exponent baseDerivative) base))

/-- The partial derivative of a tree with respect to a symbol. -/
def differentiate (target : String) : Expr α → Expr α
  | number _ => number zero
  | symbol name => number (if name = target then one else zero)
  | negate operand => neg (operand.differentiate target)
  | binary .add l r => add (l.differentiate target) (r.differentiate target)
  | binary .sub l r => sub (l.differentiate target) (r.differentiate target)
  | binary .mul l r => add (mul (l.differentiate target) r) (mul l (r.differentiate target))
  | binary .div l r =>
    if r.mentions target then
      div (sub (mul (l.differentiate target) r) (mul l (r.differentiate target)))
        (pow r (number (ofNat 2)))
    else div (l.differentiate target) r
  | binary .pow l r =>
    powerDerivative l r (l.differentiate target) (r.differentiate target)
      (l.mentions target) (r.mentions target)
  | call function argument =>
    let inner := argument.differentiate target
    if inner.isZeroLiteral then number zero else mul (outerDerivative function argument) inner

end Metrology.Expr
