import Metrology.Expr.Canonical
import Metrology.Expr.Derivative
import Metrology.Identifier.Uuid

/-!
# Stores of derivatives

Differentiating a formula takes time, and the same derivatives are needed every
time a document is evaluated. So the evaluation asks a store for them. One
store remembers nothing; the other keeps every derivative it has found, under a
key made from the canonical text of the formula and the symbol. A changed
formula has another canonical text, so an entry never becomes wrong.

## Main definitions

* `DerivativeStore`: What the evaluation asks for derivatives.
* `NoMemory`: The store that remembers nothing.
* `DerivativeCache`: The store that keeps what it has found.
* `DerivativeCache.key`: The key of a formula and a symbol.
-/

namespace Metrology

/-- What the evaluation asks for derivatives: the answer and the store after
    it. -/
class DerivativeStore (σ : Type) (α : outParam Type) where
  derivative : σ → Expr α → String → Expr α × σ

/-- The store that remembers nothing. -/
structure NoMemory (α : Type) where

instance {α : Type} [Scalar α] : DerivativeStore (NoMemory α) α where
  derivative store tree symbol := (tree.differentiate symbol, store)

/-- Derivatives under the keys of their formulas and symbols. -/
structure DerivativeCache (α : Type) where
  entries : List (Uuid × Expr α)

namespace DerivativeCache

variable {α : Type}

def empty : DerivativeCache α := ⟨[]⟩

/-- How many derivatives are kept. -/
def size (cache : DerivativeCache α) : Nat := cache.entries.length

def isEmpty (cache : DerivativeCache α) : Bool := cache.entries.isEmpty

/-- The key of a formula and a symbol: the identifier made from the canonical
    text and the symbol, with a null character between them. -/
def key [IdSource] [Arithmetic α] [Written α] (tree : Expr α) (symbol : String) : Uuid :=
  IdSource.ofName (tree.canonical ++ "\x00" ++ symbol)

variable [IdSource] [Scalar α] [Written α]

/-- The derivative that is kept under the key, or else a new one. -/
def derivative (cache : DerivativeCache α) (tree : Expr α) (symbol : String) :
    Expr α × DerivativeCache α :=
  let k := key tree symbol
  match cache.entries.lookup k with
  | some kept => (kept, cache)
  | none =>
    let found := tree.differentiate symbol
    (found, ⟨(k, found) :: cache.entries⟩)

instance : DerivativeStore (DerivativeCache α) α := ⟨derivative⟩

end DerivativeCache

end Metrology
