import Metrology.Config.Basic
import Metrology.Proofs.Outcome
import Metrology.Proofs.Unit.ReadBack
import Metrology.Session.Basic
import Metrology.Proofs.Propagation.Invariant
import Metrology.Proofs.Propagation.Store
import Metrology.Proofs.Propagation.Units
import Metrology.Proofs.Report.NaturalUnit
import Metrology.Proofs.Document.Edit
import Metrology.Proofs.Session.Atomicity
import Metrology.Proofs.Propagation.Graph
import Metrology.Proofs.Propagation.Cycle
import Metrology.Proofs.Expr.Substitution
import Metrology.Proofs.Propagation.Inlining
import Metrology.Proofs.Quantity.Operations
import Metrology.Proofs.Scalar.Real
import Metrology.Proofs.Propagation.LinearizedLaw
import Metrology.Proofs.Propagation.Dimensions
import Metrology.Proofs.Report.Concise
import Metrology.Proofs.Session.Symbols
import Metrology.Proofs.Session.Exchange
import Metrology.Proofs.Session.Memory
import Metrology.Proofs.Propagation.Cache
import Metrology.Proofs.Expr.Descent
import Metrology.Proofs.Expr.Cut
import Metrology.Proofs.Expr.ReadBack
import Metrology.Proofs.Propagation.Agreement
import Metrology.Proofs.Propagation.Reuse
import Metrology.Proofs.Report.Conversion
import Metrology.Proofs.Propagation.Contributions
import Metrology.Proofs.Expr.UnitChoice
import Metrology.Proofs.Unit.Representation
import Metrology.Proofs.Propagation.Correspondence
import Metrology.Proofs.Propagation.Depth
import Metrology.Proofs.Propagation.Reached
import Metrology.Proofs.Propagation.Isolation
import Metrology.Proofs.Measurement.Edits
import Metrology.Proofs.Document.Canonical
import Metrology.Proofs.Expr.ConsistentDerivative
import Metrology.Proofs.Propagation.Parts
import Metrology.Proofs.Session.Effects
import Metrology.Proofs.Unit.Reciprocal
import Metrology.Proofs.Unit.Commutation
import Metrology.Proofs.Unit.WordReading
import Metrology.Proofs.Unit.RealPowers
import Metrology.Proofs.Propagation.Digits
import Metrology.Proofs.Propagation.Samples
import Metrology.Proofs.Propagation.Unbound
import Metrology.Proofs.Measurement.Moments
import Metrology.Proofs.Expr.EarliestError
import Metrology.Proofs.Propagation.Bounded
import Metrology.Proofs.Report.Precision
import Metrology.Proofs.Unit.Meaning
import Metrology.Proofs.Report.DisplayUnit
import Metrology.Proofs.Expr.Lexemes
import Metrology.Proofs.Quantity.Scanning
import Metrology.Proofs.Expr.Lookups
