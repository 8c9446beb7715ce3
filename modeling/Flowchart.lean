import Flowchart.Block.Fields
import Flowchart.Block.Kind
import Flowchart.Block.Port
import Flowchart.Block.Record
import Flowchart.CommandLine.Options
import Flowchart.CommandLine.Run
import Flowchart.Crash
import Flowchart.Display.Layout
import Flowchart.Document.Chars
import Flowchart.Document.Folding
import Flowchart.Document.Lexeme
import Flowchart.Document.Node
import Flowchart.Document.Program
import Flowchart.Document.Reader
import Flowchart.Document.Spelling
import Flowchart.Document.Writer
import Flowchart.Expr.Error
import Flowchart.Expr.Postfix
import Flowchart.Expr.Value
import Flowchart.Failure
import Flowchart.Failure.Chain
import Flowchart.Failure.Kind
import Flowchart.Fingerprint.Digest
import Flowchart.Fingerprint.Serial
import Flowchart.Graph.Basic
import Flowchart.Graph.Error
import Flowchart.Graph.Validation
import Flowchart.Machine.Error
import Flowchart.Machine.Evaluate
import Flowchart.Machine.Functions
import Flowchart.Machine.Limits
import Flowchart.Machine.Run
import Flowchart.Machine.Step
import Flowchart.Main
import Flowchart.Number.Binary
import Flowchart.Number.Layout
import Flowchart.Number.Literal
import Flowchart.Number.Power
import Flowchart.Number.Shortest
import Flowchart.Scope.Error
import Flowchart.Scope.Frame
import Flowchart.Scope.Operation
import Flowchart.Scope.Scopes
import Flowchart.Session.Basic
import Flowchart.Session.Command
import Flowchart.Session.Files
import Flowchart.Session.Outline
import Flowchart.Table
import Flowchart.Text.Blank
import Flowchart.Text.Printable
import Flowchart.Text.Quoted
import Flowchart.Token
import Flowchart.Token.Scan
import Flowchart.Workspace.Basic
import Flowchart.Workspace.Edit
import Flowchart.Workspace.Error
import Flowchart.Proofs.Document.Layout
import Flowchart.Proofs.Document.Reading
import Flowchart.Proofs.Document.RoundTrip
import Flowchart.Proofs.Document.Scalars
import Flowchart.Proofs.Except
import Flowchart.Proofs.Expr.Acceptance
import Flowchart.Proofs.Expr.Grammar
import Flowchart.Proofs.Expr.Meaning
import Flowchart.Proofs.Expr.Yard
import Flowchart.Proofs.Fingerprint.Changes
import Flowchart.Proofs.Graph.Build
import Flowchart.Proofs.Graph.Chains
import Flowchart.Proofs.Graph.Cycles
import Flowchart.Proofs.Graph.Exactness
import Flowchart.Proofs.Graph.Faithful
import Flowchart.Proofs.Graph.Links
import Flowchart.Proofs.Graph.Renaming
import Flowchart.Proofs.Graph.Roots
import Flowchart.Proofs.Graph.Validity
import Flowchart.Proofs.Graph.Wired
import Flowchart.Proofs.Machine.Attempts
import Flowchart.Proofs.Machine.Attribution
import Flowchart.Proofs.Machine.Ceilings
import Flowchart.Proofs.Machine.Discipline
import Flowchart.Proofs.Machine.Discovery
import Flowchart.Proofs.Machine.Ends
import Flowchart.Proofs.Machine.Faults
import Flowchart.Proofs.Machine.Finite
import Flowchart.Proofs.Machine.Functions
import Flowchart.Proofs.Machine.Inputs
import Flowchart.Proofs.Machine.Leftovers
import Flowchart.Proofs.Machine.Memory
import Flowchart.Proofs.Machine.Names
import Flowchart.Proofs.Machine.Passes
import Flowchart.Proofs.Machine.Recursive
import Flowchart.Proofs.Machine.Refinement
import Flowchart.Proofs.Machine.Registry
import Flowchart.Proofs.Machine.Renaming
import Flowchart.Proofs.Machine.Safety
import Flowchart.Proofs.Machine.Schedule
import Flowchart.Proofs.Machine.Steps
import Flowchart.Proofs.Machine.Termination
import Flowchart.Proofs.Machine.Validated
import Flowchart.Proofs.Number.Range
import Flowchart.Proofs.Number.Rounding
import Flowchart.Proofs.Scope.Arrays
import Flowchart.Proofs.Scope.Brackets
import Flowchart.Proofs.Scope.Frames
import Flowchart.Proofs.Scope.Operations
import Flowchart.Proofs.Scope.Snapshots
import Flowchart.Proofs.Session.Failures
import Flowchart.Proofs.Session.Outlines
import Flowchart.Proofs.Table
import Flowchart.Proofs.Token.Lexemes
import Flowchart.Proofs.Token.Segmentation
import Flowchart.Proofs.Workspace.Built
import Flowchart.Proofs.Workspace.Detaching
import Flowchart.Proofs.Workspace.Edits
import Flowchart.Proofs.Workspace.InPlace
import Flowchart.Proofs.Workspace.Index
import Flowchart.Proofs.Workspace.Links
import Flowchart.Proofs.Workspace.Undoing
import Flowchart.Proofs.Workspace.Wiring
