import Metrology.Document
import Metrology.Json.Measurement
import Metrology.Report.Basic

/-!
# Documents in JSON

The JSON forms of a document, of its parts, and of reports. They are written
only.

## Main definitions

* `Document.toJson`: A document with its settings.
* `OutputReport.toJson`: The result of an output.
-/

namespace Metrology

open Json (Tree)

def Output.toJson (output : Output) : Tree :=
  .record [
    ("id", .text output.id.text),
    ("name", .text output.name),
    ("display_unit", .ofText? output.displayUnit)]

def Settings.toJson (settings : Settings Float) : Tree :=
  .record [("gravity", .float settings.gravity)]

def UncertaintyTypes.toJson (types : UncertaintyTypes) : Tree :=
  .record [("type_a", .bool types.typeA), ("type_b", .bool types.typeB)]

/-- Writes a document. -/
def Document.toJson (document : Document Float) : Tree :=
  .record [
    ("measurements", .list (document.measurements.map Measurement.toJson)),
    ("outputs", .list (document.outputs.map Output.toJson)),
    ("settings", document.settings.toJson),
    ("uncertainty_types", document.uncertaintyTypes.toJson)]

/-- Writes the result of an output. -/
def OutputReport.toJson (report : OutputReport Float) : Tree :=
  .record [
    ("name", .text report.name),
    ("unit", .text report.unit),
    ("mean", .float report.mean),
    ("uncertainty", .ofFloat? report.uncertainty),
    ("relative_uncertainty", .ofFloat? report.relativeUncertainty),
    ("min_digits", .integer report.minDigits)]

end Metrology
