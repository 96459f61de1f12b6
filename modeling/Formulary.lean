import Formulary.Number.Decimal
import Formulary.Number.Power
import Formulary.Number.Reading
import Formulary.Text.Alphabetic
import Formulary.Text.Blank
import Formulary.Text.Numeric
import Formulary.Text.Quoted
import Formulary.Calendar.Date
import Formulary.Value.Basic
import Formulary.Operator
import Formulary.Value.Operations
import Formulary.Expr.References
import Formulary.Source.Parser
import Formulary.Context
import Formulary.Script.Parser
import Formulary.Compiled
import Formulary.Expr.Walk
import Formulary.Postfix.Run
import Formulary.Workspace.Session
import Formulary.Event.Rehearsal
import Formulary.CommandLine.Run
import Formulary.Main
import Formulary.Proofs.Compiled.Refinement
import Formulary.Proofs.Postfix.Agreement
import Formulary.Proofs.Source.Reading
import Formulary.Proofs.Table
import Formulary.Proofs.Source.Spacing
import Formulary.Proofs.Source.Writing
import Formulary.Proofs.Source.Nesting
import Formulary.Proofs.Source.Rendering
import Formulary.Proofs.Compiled.Places
import Formulary.Proofs.Compiled.Scopes
import Formulary.Proofs.Alike
import Formulary.Proofs.Sheet.Alone
import Formulary.Proofs.Sheet.Fresh
import Formulary.Proofs.Workspace.Caches
import Formulary.Proofs.Workspace.Evaluation
import Formulary.Proofs.Workspace.Changes
import Formulary.Proofs.Workspace.Events
import Formulary.Proofs.Workspace.Transparency
import Formulary.Proofs.Compiled.Lifecycle
import Formulary.Proofs.Value.Interchange
import Formulary.Proofs.Value.Coercion
import Formulary.Proofs.Script.Loading
import Formulary.Proofs.Sheet.Bookkeeping
import Formulary.Proofs.Sheet.History
import Formulary.Proofs.Sheet.Relevance
import Formulary.Proofs.Facade.NeverRepeats
import Formulary.Proofs.Value.Comparison
import Formulary.Proofs.Script.Containment
import Formulary.Proofs.Calendar.Layout
import Formulary.Proofs.Source.Diagnosis
import Formulary.Proofs.Number.Sum
import Formulary.Proofs.Value.DateArithmetic
import Formulary.Proofs.Event.Rehearsal
import Formulary.Proofs.Workspace.Given
import Formulary.Proofs.Workspace.Listeners
import Formulary.Proofs.Function.Reductions
import Formulary.Proofs.Function.Rounding
import Formulary.Proofs.CommandLine.Display
import Formulary.Proofs.Postfix.Boundaries
import Formulary.Proofs.Compiled.Nesting
import Formulary.Proofs.Expr.Traversal
