import Metrology.Measurement.TypeB
import Metrology.Measurement.Direct
import Metrology.Text.Split
import Metrology.Text.Utf8

/-!
# Records of a query

A set of measurements and outputs can be carried in a web address. Each record
is one pair of a key and a list of fields, joined by commas and then encoded:

* `d`: a direct measurement, by its name, its unit, and type-B limits,
* `c`: a composite measurement, by its name and its formula,
* `o`: an output, by the letter `u`, its name, and a display unit.

The order of the pairs is the order of the records. A pair with another key is
passed over by the reader. The samples are not carried.

How a value is encoded is not laid down here. The encoding is a parameter, and
`Standard.percentCodec` is the one that addresses are written with.

## Main definitions

* `QueryCodec`: Encoding texts for a query, and reading them back.
* `Record`: What one pair carries.
* `Record.encodeAll`: The query of a list of records.
* `Record.decodeAll`: The records of a query.
-/

namespace Metrology

/-- An encoding of texts for a query. What is read may be no text. -/
class QueryCodec where
  encode : String → String
  decode : String → Except Utf8.Fault String

/-- What one pair of a query carries. -/
inductive Record where
  | direct (name unit : String) (typeB : List String)
  | composite (name formula : String)
  | output (name : String) (displayUnit : Option String)
  deriving DecidableEq, Repr

/-- A part of a query whose bytes are no text. -/
structure RecordError where
  source : String
  fault : Utf8.Fault
  deriving DecidableEq, Repr

/-- The message of a malformed query. -/
def RecordError.message (error : RecordError) : String :=
  "Malformed record: " ++ error.source ++ ": " ++ error.fault.describe

namespace Record

/-- The key of a record's pair. -/
def key : Record → String
  | direct .. => "d"
  | composite .. => "c"
  | output .. => "o"

/-- As many texts as a measurement has type-B entries, the empty ones left
    out. -/
def typeBFields (values : List String) : List String :=
  (values.filter fun value => !value.isEmpty).take maxTypeB

/-- The fields of a record. -/
def fields : Record → List String
  | direct name unit typeB => name :: unit :: typeBFields typeB
  | composite name formula => [name, formula]
  | output name displayUnit =>
    "u" :: name :: (displayUnit.filter fun unit => !unit.isEmpty).toList

/-- The pair of a record. -/
def encode [QueryCodec] (record : Record) : String :=
  record.key ++ "=" ++ QueryCodec.encode (",".intercalate record.fields)

/-- The query of a list of records. -/
def encodeAll [QueryCodec] (records : List Record) : String := "&".intercalate (records.map encode)

/-- The record of a key and a value. The formula of a composite measurement may
    hold commas. -/
def ofPair? (key value : String) : Option Record :=
  let fields := Text.splitAt ',' value
  let field (i : Nat) : String := fields.getD i ""
  if key = "d" then some (direct (field 0) (field 1) (typeBFields (fields.drop 2)))
  else if key = "c" then some (composite (field 0) (",".intercalate (fields.drop 1)))
  else if key = "o" ∧ fields.head? = some "u" then
    some (output (field 1) (fields[2]?.filter fun unit => !unit.isEmpty))
  else none

/-- Reads one component of a pair, in which a plus sign stands for a space. -/
def decodeComponent [QueryCodec] (source : String) : Except RecordError String :=
  let spaced := String.ofList (source.toList.map fun c => if c = '+' then ' ' else c)
  (QueryCodec.decode spaced).mapError (RecordError.mk source)

/-- Reads a pair; nothing if it carries no record. -/
def decode? [QueryCodec] (pair : String) : Except RecordError (Option Record) := do
  let (key, value) := (Text.cutOnce? '=' pair).getD (pair, "")
  let key ← decodeComponent key
  let value ← decodeComponent value
  return ofPair? key value

/-- The query without the question mark that may stand before it. -/
def dropMark (query : String) : String :=
  match query.toList with
  | '?' :: rest => String.ofList rest
  | _ => query

/-- The records of a query. -/
def decodeAll [QueryCodec] (query : String) : Except RecordError (List Record) := do
  let pairs := (Text.splitAt '&' (dropMark query)).filter fun pair => !pair.isEmpty
  return (← pairs.mapM decode?).filterMap id

end Record

end Metrology
