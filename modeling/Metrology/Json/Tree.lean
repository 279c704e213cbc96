import Metrology.Decimal.Layout

/-!
# Writing JSON

JSON as it is sent. Doubles are written with the fewest digits that read back,
and one that is not finite as null. Strings escape the quotation mark, the
backslash and control characters only.

## Main definitions

* `Json.Tree`: What is sent.
* `Json.Tree.render`: The text of it.
-/

namespace Metrology.Json

/-- A value to be sent. -/
inductive Tree where
  | null
  | bool (value : Bool)
  | integer (value : Int)
  | float (value : Float)
  | text (value : String)
  | list (items : List Tree)
  | record (fields : List (String × Tree))

/-- One character as it stands in a string. -/
def escape (c : Char) : List Char :=
  if c = '"' ∨ c = '\\' then ['\\', c]
  else if c = '\x08' then ['\\', 'b']
  else if c = '\x0c' then ['\\', 'f']
  else if c = '\n' then ['\\', 'n']
  else if c = '\r' then ['\\', 'r']
  else if c = '\t' then ['\\', 't']
  else if c.toNat < 0x20 then
    ['\\', 'u', '0', '0', Nat.digitChar (c.toNat / 16), Nat.digitChar (c.toNat % 16)]
  else [c]

/-- A text between quotation marks. -/
def quote (text : String) : String :=
  String.ofList ('"' :: text.toList.flatMap escape ++ ['"'])

namespace Tree

/-- A text, or null without one. -/
def ofText? (value : Option String) : Tree := value.elim null text

/-- A double, or null without one. -/
def ofFloat? (value : Option Float) : Tree := value.elim null float

mutual

/-- The text of a value. -/
def render : Tree → String
  | null => "null"
  | bool value => if value then "true" else "false"
  | integer value => toString value
  | float value => (Layout.json.float? value).getD "null"
  | text value => quote value
  | list items => "[" ++ ",".intercalate (renderItems items) ++ "]"
  | record fields => "\x7b" ++ ",".intercalate (renderFields fields) ++ "\x7d"

/-- The texts of several values. -/
def renderItems : List Tree → List String
  | [] => []
  | item :: items => item.render :: renderItems items

/-- The texts of several fields. -/
def renderFields : List (String × Tree) → List String
  | [] => []
  | (name, value) :: fields => (quote name ++ ":" ++ value.render) :: renderFields fields

end

end Tree

end Metrology.Json
