import Metrology.Identifier.NameBased
import Metrology.Json.Reader
import Metrology.Record
import Metrology.Text.Percent

/-!
# The encodings and identifiers of a session

A session leaves open how texts are encoded in a query, how JSON is read and where
identifiers come from. These are the choices it runs with: percent encoding, a
reader that keeps to the grammar of JSON, and identifiers with a number in them or
made from a digest. They are in scope wherever `Standard` is opened, and nowhere
else, so what is said without them is said of every choice.

## Main definitions

* `Standard.percentCodec`, `Standard.jsonReader`, `Standard.numberedIds`: The choices.
-/

namespace Metrology.Standard

scoped instance percentCodec : QueryCodec := ⟨Percent.encode, Percent.decode⟩

scoped instance jsonReader : Json.Reader := ⟨Json.Value.read?⟩

scoped instance numberedIds : IdSource := ⟨RecordId.serial, Uuid.ofName, Uuid.read?⟩

end Metrology.Standard
