import Criteria.Operator.Combinators
import Criteria.Operator.Stock
import Criteria.Options.Reader
import Criteria.Json.Parser
import Criteria.Samples
import Criteria.Proofs.Expr.Atoms
import Criteria.Proofs.Expr.Flattening
import Criteria.Proofs.Expr.Tame
import Criteria.Proofs.Expr.Factoring
import Criteria.Proofs.Plan.Basic
import Criteria.Proofs.Plan.Compiling
import Criteria.Proofs.Operator.Results
import Criteria.Proofs.Transparency
import Criteria.Proofs.Interpreter
import Criteria.Proofs.Guards
import Criteria.Proofs.Operator.Calls
import Criteria.Proofs.Places
import Criteria.Proofs.FirstError
import Criteria.Proofs.Vacuity
import Criteria.Proofs.Plan.Answers
import Criteria.Proofs.Rearrangement
import Criteria.Proofs.Operator.Moving
import Criteria.Proofs.Operator.Readers
import Criteria.Proofs.Relocation
import Criteria.Proofs.Composition
import Criteria.Proofs.Expr.Counting
import Criteria.Proofs.Economy
import Criteria.Proofs.Expr.Repetition
import Criteria.Proofs.SingleOperator
import Criteria.Proofs.Binary64.Values
import Criteria.Proofs.Binary64.Shortest
import Criteria.Proofs.Json.Number
import Criteria.Proofs.Json.Text
import Criteria.Proofs.Operator.Coherence
import Criteria.Proofs.CanonicalForm
import Criteria.Proofs.Render.Grammar
import Criteria.Proofs.Render.Reading
import Criteria.Proofs.Render.Identity
import Criteria.Proofs.Expr.FactoredForm
import Criteria.Proofs.Binary64.Integers
import Criteria.Proofs.Counter
import Criteria.Proofs.NegationKey
import Criteria.Proofs.Entries
import Criteria.Proofs.Json.Equality
import Criteria.Proofs.Binary64.Nearest
import Criteria.Proofs.Addressing
import Criteria.Proofs.HandingOn
import Criteria.Proofs.Json.Comparison
import Criteria.Proofs.Saturation
import Criteria.Proofs.Binary64.Rounding
import Criteria.Proofs.Json.NumberReading
import Criteria.Proofs.Json.Reading
import Criteria.Proofs.Overlay
