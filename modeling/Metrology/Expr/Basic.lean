import Metrology.Scalar.Basic

/-!
# Formula trees

A formula is a tree of literals, symbols, the five arithmetic operations, signs
and function calls. The tree carries its literals as scalars of some type `α`.
The reader produces exact decimals; `Expr.map` turns them into the scalars that
the formula is evaluated on.

A symbol is any name that is not called: whether it names a measurement, a
constant, or nothing, is decided when the formula is evaluated. Functions are
known by name for the same reason.

## Main definitions

* `BinaryOp`: The five arithmetic operations.
* `Expr`: Formula trees.
* `Expr.freeSymbols`: The distinct symbols of a tree, as first encountered.
* `Expr.mentions`: Whether a symbol stands somewhere in a tree.
* `Constant`: The symbols that have a value of their own.
-/

namespace Metrology

/-- The five arithmetic operations. -/
inductive BinaryOp where
  | add
  | sub
  | mul
  | div
  | pow
  deriving DecidableEq, Repr

/-- The sign an operation is written with. -/
def BinaryOp.sign : BinaryOp → Char
  | .add => '+'
  | .sub => '-'
  | .mul => '*'
  | .div => '/'
  | .pow => '^'

/-- Formula trees with literals of type `α`. -/
inductive Expr (α : Type) where
  | number (value : α)
  | symbol (name : String)
  | binary (op : BinaryOp) (left right : Expr α)
  | negate (operand : Expr α)
  | call (function : String) (argument : Expr α)
  deriving DecidableEq, Repr

namespace Expr

variable {α β : Type}

/-- The same tree with every literal replaced. -/
def map (f : α → β) : Expr α → Expr β
  | number value => number (f value)
  | symbol name => symbol name
  | binary op left right => binary op (left.map f) (right.map f)
  | negate operand => negate (operand.map f)
  | call function argument => call function (argument.map f)

/-- The tree of a formula on the scalars `α`. -/
def ofDecimals [Arithmetic α] (tree : Expr Decimal) : Expr α := tree.map Arithmetic.ofDecimal

/-- The name, if the whole tree is one symbol. -/
def asSymbol? : Expr α → Option String
  | symbol name => some name
  | _ => none

/-- Adds the symbols of a tree to a list, each behind those already there. -/
def collectSymbols : Expr α → List String → List String
  | number _, seen => seen
  | symbol name, seen => if name ∈ seen then seen else seen ++ [name]
  | binary _ left right, seen => right.collectSymbols (left.collectSymbols seen)
  | negate operand, seen => operand.collectSymbols seen
  | call _ argument, seen => argument.collectSymbols seen

/-- The distinct symbols of a tree in the order in which they first stand in
    it. Names of functions are no symbols. -/
def freeSymbols (tree : Expr α) : List String := tree.collectSymbols []

/-- Whether a symbol stands somewhere in a tree. -/
def mentions (name : String) : Expr α → Bool
  | number _ => false
  | symbol other => other = name
  | binary _ left right => left.mentions name || right.mentions name
  | negate operand => operand.mentions name
  | call _ argument => argument.mentions name

end Expr

/-- The symbols that have a value of their own wherever nothing else is bound
    to them. -/
inductive Constant where
  | pi
  | euler
  deriving DecidableEq, Repr

namespace Constant

def ofName? (name : String) : Option Constant :=
  if name = "pi" ∨ name = "PI" ∨ name = "π" then some pi
  else if name = "e" ∨ name = "E" then some euler
  else none

def value {α : Type} [Scalar α] : Constant → α
  | pi => Scalar.pi
  | euler => Scalar.euler

end Constant

end Metrology
