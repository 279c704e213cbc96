import Metrology.Json.Value

/-!
# Fields of JSON records

A record with named fields may be written as an object, in any order and with
further members that do not count, or as an array of the fields in their own
order, with nothing behind them. A field that may be absent may also be null.
In an array no field can be left out, but for those at the end that have a
default.

A record of several shapes says which one it has in a member, or first item,
that is called its tag. Then all of it is looked at, members that do not count
included.

## Main definitions

* `Json.Fields`: The fields of a record.
* `Json.Value.fields?`: Taking a value as a record.
* `Json.Fields.required?`, `Json.Fields.optional?`, `Json.Fields.withDefault?`:
  The fields.
* `Json.Value.tagged?`: Taking a value as a record of several shapes.
-/

namespace Metrology.Json

namespace Value

def toText? : Value → Option String
  | string value => value
  | _ => none

def toFloat? : Value → Option Float
  | number n => n.toFloat?
  | _ => none

def toNat? : Value → Option Nat
  | number n => n.toNat?
  | _ => none

def toBool? : Value → Option Bool
  | bool value => some value
  | _ => none

def toList? {β : Type} (item? : Value → Option β) : Value → Option (List β)
  | array items => items.mapM item?
  | _ => none

end Value

/-- The fields of a record, with their names. -/
structure Fields where
  values : List (String × Value)
  /-- Whether the record was written as an array. -/
  positional : Bool

namespace Fields

/-- The fields of an object; none if a known field stands twice or a key has no
    meaning. -/
def ofMembers? (names : List String) (members : List (Option String × Value)) : Option Fields := do
  let values ← members.mapM fun (key, value) => key.map fun key => (key, value)
  let known := values.filter fun field => names.contains field.1
  guard (names.all fun name => (known.filter (·.1 = name)).length ≤ 1)
  return ⟨known, false⟩

/-- The fields of an array; none if there are too many. -/
def ofItems? (names : List String) (items : List Value) : Option Fields :=
  if items.length ≤ names.length then some ⟨names.zip items, true⟩ else none

/-- A field that must be there. -/
def required? {β : Type} (fields : Fields) (name : String) (read? : Value → Option β) :
    Option β :=
  (fields.values.lookup name).bind read?

/-- A field that may be absent from an object, or null. -/
def optional? {β : Type} (fields : Fields) (name : String) (read? : Value → Option β) :
    Option (Option β) :=
  match fields.values.lookup name with
  | none => if fields.positional then none else some none
  | some .null => some none
  | some value => (read? value).map some

/-- A field that has a default where it is absent. -/
def withDefault? {β : Type} (fields : Fields) (name : String) (default : β)
    (read? : Value → Option β) : Option β :=
  match fields.values.lookup name with
  | none => some default
  | some value => read? value

end Fields

namespace Value

/-- Takes a value as a record with the given fields. -/
def fields? (names : List String) : Value → Option Fields
  | object members => Fields.ofMembers? names members
  | array items => Fields.ofItems? names items
  | _ => none

/-- The tag of a record of several shapes, and what is left without it. -/
def tagged? (tag : String) (value : Value) : Option (String × Value) := do
  guard value.isSound
  match value with
  | object members =>
    match members.filter (·.1 = some tag) with
    | [(_, shape)] => return (← shape.toText?, object (members.filter (·.1 ≠ some tag)))
    | _ => none
  | array (shape :: items) => return (← shape.toText?, array items)
  | _ => none

end Value

end Metrology.Json
