import Circuitry.Bench.Table
import Circuitry.Main
import Circuitry.Numeral
import Circuitry.Proofs.Bench.Convergence
import Circuitry.Proofs.Bench.Flaws
import Circuitry.Proofs.Bench.Lookups
import Circuitry.Proofs.Folding.Agreement
import Circuitry.Proofs.Json.RoundTrip
import Circuitry.Proofs.Nesting.Balance
import Circuitry.Proofs.Nesting.Grammar
import Circuitry.Proofs.Script.Diagnostics
import Circuitry.Proofs.Script.WellFormed
import Circuitry.Proofs.Stored.Truncation
import Circuitry.Proofs.Workshop.Lifecycle
import Circuitry.Proofs.Workshop.Scripts
import Circuitry.Region.Guard
import Circuitry.Script
import Circuitry.Proofs.Bench.Range
import Circuitry.Proofs.Draft.Payloads
import Circuitry.Proofs.Operator.Exact
import Circuitry.Proofs.Script.Places
import Circuitry.Proofs.Meaning.Trial
import Circuitry.Proofs.Meaning.Laws
import Circuitry.Proofs.Meaning.Operators
import Circuitry.Proofs.Meaning.Arithmetic
import Circuitry.Proofs.Meaning.Shift
import Circuitry.Proofs.Stored.Payloads
import Circuitry.Proofs.Meaning.Extraction
import Circuitry.Proofs.Meaning.Selection
import Circuitry.Proofs.Meaning.Connection
import Circuitry.Proofs.Meaning.Promises
import Circuitry.Proofs.Nesting.Indentation
import Circuitry.Proofs.Draft.Ranges
import Circuitry.Proofs.Draft.Widths
import Circuitry.Proofs.Meaning.Aggregates
import Circuitry.Proofs.Operator.Machine
import Circuitry.Proofs.Bench.Careful
import Circuitry.Proofs.Bench.Total
import Circuitry.Proofs.Bits.Number
import Circuitry.Proofs.Draft.Literals
import Circuitry.Proofs.Numeral.Reading
import Circuitry.Proofs.Numeral.Limbs
import Circuitry.Proofs.Bits.Conversion
import Circuitry.Proofs.Listing.Unambiguous
