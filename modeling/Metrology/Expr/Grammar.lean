import Metrology.Expr.Subscript
import Metrology.Expr.Token

/-!
# The grammar of formulas

```text
sum     := product (('+' | '-') product)*
product := signed (('*' | '/')? signed)*
signed  := '-' signed | power
power   := atom ('^' signed)?
atom    := number | name | name '(' sum ')' | '(' sum ')'
```

Two factors may stand side by side without a sign, and are then multiplied; the
second one may not begin with a minus sign, which would make a difference. A
name directly before an opening parenthesis is a call. Sums and products group
to the left, powers to the right, and a power binds its base more closely than
a minus sign before it.

There is one function for each rule and one for each repetition. They call each
other with one less unit of fuel. Between two tokens at most five calls are
made, so five units for each token and five more are always enough.

## Main definitions

* `Grammar.sum`, `Grammar.product`, `Grammar.signed`, `Grammar.power`,
  `Grammar.atom`: The rules.
* `Grammar.formula`: A list of lexemes read as one sum.
* `Expr.read`: A text read as a formula.
-/

namespace Metrology

namespace Grammar

/-- A tree and the lexemes behind it, or why there is none. -/
abbrev Parsed := Except ParseError (Expr Decimal × List Lexeme)

/-- The offset of the next lexeme, or of the end of the text. -/
def position (finish : Nat) : List Lexeme → Nat
  | [] => finish
  | lexeme :: _ => lexeme.offset

/-- Whether a factor may begin with the next lexeme when no sign stands before
    it. -/
def startsFactor : List Lexeme → Bool
  | ⟨.number _, _, _⟩ :: _ => true
  | ⟨.word _, _, _⟩ :: _ => true
  | ⟨.opening, _, _⟩ :: _ => true
  | _ => false

/-- Steps over a closing parenthesis. -/
def close (finish : Nat) (function : Option String) : List Lexeme → Except ParseError (List Lexeme)
  | ⟨.closing, _, _⟩ :: rest => .ok rest
  | lexemes => .error ⟨.unclosed function, position finish lexemes⟩

/-- The answer when the fuel runs out, which it never does. -/
def exhausted (finish : Nat) : Parsed := .error ⟨.unfinished, finish⟩

mutual

/-- Products joined by `+` and `-`. -/
def sum (finish : Nat) : (fuel : Nat) → List Lexeme → Parsed
  | 0, _ => exhausted finish
  | fuel + 1, lexemes => do
    let (first, rest) ← product finish fuel lexemes
    sumTail finish fuel first rest

/-- The rest of a sum whose beginning has been read. -/
def sumTail (finish : Nat) : (fuel : Nat) → Expr Decimal → List Lexeme → Parsed
  | 0, _, _ => exhausted finish
  | fuel + 1, first, ⟨.operator .add, _, _⟩ :: rest => do
    let (second, rest) ← product finish fuel rest
    sumTail finish fuel (.binary .add first second) rest
  | fuel + 1, first, ⟨.operator .sub, _, _⟩ :: rest => do
    let (second, rest) ← product finish fuel rest
    sumTail finish fuel (.binary .sub first second) rest
  | _ + 1, first, lexemes => .ok (first, lexemes)

/-- Factors joined by `*`, `/` or nothing. -/
def product (finish : Nat) : (fuel : Nat) → List Lexeme → Parsed
  | 0, _ => exhausted finish
  | fuel + 1, lexemes => do
    let (first, rest) ← signed finish fuel lexemes
    productTail finish fuel first rest

/-- The rest of a product whose beginning has been read. -/
def productTail (finish : Nat) : (fuel : Nat) → Expr Decimal → List Lexeme → Parsed
  | 0, _, _ => exhausted finish
  | fuel + 1, first, ⟨.operator .mul, _, _⟩ :: rest => do
    let (second, rest) ← signed finish fuel rest
    productTail finish fuel (.binary .mul first second) rest
  | fuel + 1, first, ⟨.operator .div, _, _⟩ :: rest => do
    let (second, rest) ← signed finish fuel rest
    productTail finish fuel (.binary .div first second) rest
  | fuel + 1, first, lexemes =>
    if startsFactor lexemes then do
      let (second, rest) ← signed finish fuel lexemes
      productTail finish fuel (.binary .mul first second) rest
    else .ok (first, lexemes)

/-- A power behind any number of minus signs. -/
def signed (finish : Nat) : (fuel : Nat) → List Lexeme → Parsed
  | 0, _ => exhausted finish
  | fuel + 1, ⟨.operator .sub, _, _⟩ :: rest => do
    let (operand, rest) ← signed finish fuel rest
    return (.negate operand, rest)
  | fuel + 1, lexemes => power finish fuel lexemes

/-- An atom, and an exponent if there is one. -/
def power (finish : Nat) : (fuel : Nat) → List Lexeme → Parsed
  | 0, _ => exhausted finish
  | fuel + 1, lexemes => do
    let (base, rest) ← atom finish fuel lexemes
    match rest with
    | ⟨.operator .pow, _, _⟩ :: rest =>
      let (exponent, rest) ← signed finish fuel rest
      return (.binary .pow base exponent, rest)
    | _ => return (base, rest)

/-- A number, a symbol, a call or a group. -/
def atom (finish : Nat) : (fuel : Nat) → List Lexeme → Parsed
  | 0, _ => exhausted finish
  | _ + 1, [] => .error ⟨.unfinished, finish⟩
  | _ + 1, ⟨.number value, _, _⟩ :: rest => .ok (.number value, rest)
  -- A name directly before a parenthesis is a call, never a product.
  | fuel + 1, ⟨.word function, _, _⟩ :: ⟨.opening, _, _⟩ :: rest => do
    let (argument, rest) ← sum finish fuel rest
    let rest ← close finish (some function) rest
    return (.call function argument, rest)
  | _ + 1, ⟨.word name, _, _⟩ :: rest => .ok (.symbol name, rest)
  | fuel + 1, ⟨.opening, _, _⟩ :: rest => do
    let (group, rest) ← sum finish fuel rest
    let rest ← close finish none rest
    return (group, rest)
  | _ + 1, ⟨.operator op, offset, _⟩ :: _ => .error ⟨.unexpected (.operator op), offset⟩
  | _ + 1, ⟨.closing, offset, _⟩ :: _ => .error ⟨.unexpected .closing, offset⟩

end

/-- How much fuel a list of lexemes needs. -/
def fuelFor (lexemes : List Lexeme) : Nat := 5 * lexemes.length + 5

/-- Reads a list of lexemes as one sum, with nothing behind it. `finish` is the
    offset of the end of the text. -/
def formula (finish : Nat) (lexemes : List Lexeme) : Except ParseError (Expr Decimal) := do
  if lexemes.isEmpty then .error ⟨.blank, 0⟩
  let (tree, rest) ← sum finish (fuelFor lexemes) lexemes
  match rest with
  | [] => return tree
  | lexeme :: _ => .error ⟨.trailing lexeme.token, lexeme.offset⟩

end Grammar

/-- Reads a text as a formula. Offsets in errors count from the start of the
    text with its subscripts flattened. -/
def Expr.read (text : String) : Except ParseError (Expr Decimal) := do
  let cs := (Subscript.flatten text).toList
  let lexemes ← Lexeme.ofChars cs
  Grammar.formula (Lexeme.byteLength cs) lexemes

end Metrology
