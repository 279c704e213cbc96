import Metrology.Decimal.Layout
import Metrology.Expr.Basic
import Metrology.Text.Numeric
import Metrology.Text.Quoted

/-!
# Tokens of a formula

A formula is cut into numbers, names, operation signs and parentheses. Blanks
separate tokens and are dropped. A token remembers the characters it was made
of and where they stand: offsets count the bytes of the text in UTF-8, as the
positions in error messages do.

The cut goes character by character. A number or a name takes as many
characters as it can, and the characters of it that are still to come are
skipped by a counter, so the scan descends one character at a time whatever
the tokens are.

## Main definitions

* `Token`: Numbers, names, operation signs and parentheses.
* `Lexeme`: A token, the characters it was made of, and where they stand.
* `ParseError`: Why and where a text is no formula.
* `Token.literalLength`: How many characters a number takes.
* `Lexeme.ofChars`: The lexemes of a text.
-/

namespace Metrology

/-- The tokens of a formula. -/
inductive Token where
  | number (value : Decimal)
  | word (name : String)
  | operator (op : BinaryOp)
  | opening
  | closing
  deriving DecidableEq, Repr

/-- A token, the characters it was made of, and their offset in bytes. -/
structure Lexeme where
  token : Token
  offset : Nat
  source : List Char
  deriving DecidableEq, Repr

/-- Why a text is no formula. -/
inductive ParseFailure where
  | blank
  | badLiteral (source : List Char)
  | stray (c : Char)
  | unexpected (token : Token)
  | unfinished
  | trailing (token : Token)
  /-- A parenthesis that is never closed, of the named function's argument or
      of a group. -/
  | unclosed (function : Option String)
  deriving DecidableEq, Repr

/-- Why a text is no formula, and the offset at which that shows. -/
structure ParseError where
  failure : ParseFailure
  offset : Nat
  deriving DecidableEq, Repr

namespace Token

/-- The token that one character makes on its own. Typographic signs are taken
    for the plain ones. -/
def ofSign? (c : Char) : Option Token :=
  if c = '+' then some (operator .add)
  else if c = '-' ∨ c = '−' then some (operator .sub)
  else if c = '*' ∨ c = '·' ∨ c = '×' then some (operator .mul)
  else if c = '/' then some (operator .div)
  else if c = '^' then some (operator .pow)
  else if c = '(' then some opening
  else if c = ')' then some closing
  else none

/-- Whether a number can begin with a character. -/
def startsNumber (c : Char) : Bool := c.isDigit || c = '.'

/-- Whether a name can begin with a character. -/
def startsWord (c : Char) : Bool := Text.isLetter c || c = '_'

/-- Whether a name can go on with a character. -/
def continuesWord (c : Char) : Bool := Text.isAlphanumeric c || c = '_'

/-- How many characters a power of ten takes at the start of a text. Without
    digits there is none, and the letter is left for a name. -/
def exponentLength : List Char → Nat
  | [] => 0
  | mark :: rest =>
    if mark = 'e' ∨ mark = 'E' then
      let sign := if rest.head? = some '+' ∨ rest.head? = some '-' then 1 else 0
      let digits := ((rest.drop sign).takeWhile Char.isDigit).length
      if digits = 0 then 0 else 1 + sign + digits
    else 0

/-- How many characters a number takes at the start of a text: digits, then a
    point and more digits, then a power of ten, each if it is there. -/
def literalLength (cs : List Char) : Nat :=
  let whole := (cs.takeWhile Char.isDigit).length
  let afterWhole := cs.drop whole
  let point :=
    if afterWhole.head? = some '.' then
      1 + ((afterWhole.drop 1).takeWhile Char.isDigit).length
    else 0
  whole + point + exponentLength (afterWhole.drop point)

/-- How a message shows a token. -/
def describe : Token → String
  | number value => "Num(" ++ Layout.literal.float value.toFloat ++ ")"
  | word name => "Ident(" ++ Text.quoteWord name ++ ")"
  | operator op => "Op(" ++ Text.quoteChar op.sign ++ ")"
  | opening => "Open"
  | closing => "Close"

end Token

namespace Lexeme

/-- How many bytes a list of characters takes in UTF-8. -/
def byteLength (cs : List Char) : Nat := cs.foldl (fun length c => length + c.utf8Size) 0

/-- Cuts a text into lexemes. `offset` is where the text stands, and `skip` how
    many of its characters belong to a lexeme that has been cut already. -/
def scan : (offset skip : Nat) → List Char → Except ParseError (List Lexeme)
  | _, _, [] => .ok []
  | offset, skip + 1, c :: rest => scan (offset + c.utf8Size) skip rest
  | offset, 0, c :: rest =>
    if Text.isBlank c then scan (offset + c.utf8Size) 0 rest
    else
      match Token.ofSign? c with
      | some token => do
        let lexemes ← scan (offset + c.utf8Size) 0 rest
        return ⟨token, offset, [c]⟩ :: lexemes
      | none =>
        if Token.startsNumber c then
          let source := (c :: rest).take (Token.literalLength (c :: rest))
          match Numeral.unsigned? source with
          | none => .error ⟨.badLiteral source, offset⟩
          | some value => do
            let lexemes ← scan (offset + c.utf8Size) (source.length - 1) rest
            return ⟨.number value, offset, source⟩ :: lexemes
        else if Token.startsWord c then
          let source := c :: rest.takeWhile Token.continuesWord
          do
            let lexemes ← scan (offset + c.utf8Size) (source.length - 1) rest
            return ⟨.word (String.ofList source), offset, source⟩ :: lexemes
        else .error ⟨.stray c, offset⟩

/-- The lexemes of a text. -/
def ofChars (cs : List Char) : Except ParseError (List Lexeme) := scan 0 0 cs

end Lexeme

namespace ParseFailure

/-- What a message says about a failure. -/
def describe : ParseFailure → String
  | blank => "nothing to parse"
  | badLiteral source => "bad number literal " ++ Text.quoteWord (String.ofList source)
  | stray c => "unexpected " ++ Text.quoteChar c
  | unexpected token => "unexpected " ++ token.describe
  | unfinished => "unexpected end of input"
  | trailing token => "trailing " ++ token.describe
  | unclosed none => "missing ')' to match '('"
  | unclosed (some function) => "missing ')' after argument of " ++ function

end ParseFailure

/-- The message of a parse error. -/
def ParseError.message (error : ParseError) : String :=
  "Parse error at position " ++ toString error.offset ++ ": " ++ error.failure.describe

end Metrology
