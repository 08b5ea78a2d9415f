import DepsManifest.Text.Basic
import DepsManifest.Text.Bytes
import DepsManifest.Text.Concealed
import DepsManifest.Text.Quoted
import DepsManifest.NameMap
import DepsManifest.Number.Binary64
import DepsManifest.Digest.Sha256
import DepsManifest.Timestamp
import DepsManifest.Json.Basic
import DepsManifest.Json.Printer
import DepsManifest.Json.NumberReader
import DepsManifest.Json.Reader
import DepsManifest.Toml.Reader
import DepsManifest.Value.Basic
import DepsManifest.Value.Dict
import DepsManifest.Value.Literal
import DepsManifest.Value.Json
import DepsManifest.Scope
import DepsManifest.Operator.Format
import DepsManifest.Operator.Arithmetic
import DepsManifest.Token.Layout
import DepsManifest.Token.Scanner
import DepsManifest.Expr.Parser
import DepsManifest.Statement.Parser
import DepsManifest.Evaluation.Expr
import DepsManifest.Evaluation.Module
import DepsManifest.Evaluation.Manifest
import DepsManifest.Schema.Manifest
import DepsManifest.Comparison
import DepsManifest.Policy.Check
import DepsManifest.Policy.Outcome
import DepsManifest.Settings.Basic
import DepsManifest.Run
import DepsManifest.Report.Writer
import DepsManifest.Report.Reader
import DepsManifest.Report.Markdown
import DepsManifest.Report.Annotations
import DepsManifest.Report.Masking
import DepsManifest.Files.Store
import DepsManifest.CommandLine.Perform
import DepsManifest.Main
import DepsManifest.Proofs.Evaluation.Confinement
import DepsManifest.Proofs.Evaluation.Inlining
import DepsManifest.Proofs.Expr.RoundTrip
import DepsManifest.Proofs.Value.Literal
import DepsManifest.Proofs.Schema.Conformance
import DepsManifest.Proofs.Value.Keys
import DepsManifest.Proofs.Value.Unambiguous
import DepsManifest.Proofs.Comparison
import DepsManifest.Proofs.Policy.Dependencies
import DepsManifest.Proofs.Policy.Found
import DepsManifest.Proofs.Policy.Findings
import DepsManifest.Proofs.Json.Scalars
import DepsManifest.Proofs.Json.Reading
import DepsManifest.Proofs.Json.RoundTrip
import DepsManifest.Proofs.Value.Json
import DepsManifest.Proofs.Scope
import DepsManifest.Proofs.Evaluation.Invariant
import DepsManifest.Proofs.Evaluation.Extension
import DepsManifest.Proofs.Evaluation.Module
import DepsManifest.Proofs.Schema.Written
import DepsManifest.Proofs.Evaluation.Denotable
import DepsManifest.Proofs.Run
import DepsManifest.Proofs.Evaluation.Manifest
import DepsManifest.Proofs.Agreement
import DepsManifest.Proofs.Token.Cutting
import DepsManifest.Proofs.Token.Lines
import DepsManifest.Proofs.Token.Following
import DepsManifest.Proofs.Expr.Following
import DepsManifest.Proofs.Expr.Starting
import DepsManifest.Proofs.Statement.Following
import DepsManifest.Proofs.Evaluation.Concatenation
import DepsManifest.Proofs.Json.Members
import DepsManifest.Proofs.Sorting
import DepsManifest.Proofs.Policy.Order
import DepsManifest.Proofs.Policy.Places
import DepsManifest.Proofs.Policy.ManifestOrder
import DepsManifest.Proofs.Timestamp
import DepsManifest.Proofs.Report.Fields
import DepsManifest.Proofs.Report.RoundTrip
import DepsManifest.Proofs.Report.Annotations
import DepsManifest.Proofs.Schema.Paths
import DepsManifest.Proofs.Token.Names
import DepsManifest.Proofs.Token.Pieces
import DepsManifest.Proofs.Expr.Pieces
import DepsManifest.Proofs.Statement.Origin
import DepsManifest.Proofs.Policy.Assignments
import DepsManifest.Proofs.Token.Enclosed
import DepsManifest.Proofs.Expr.Enclosed
import DepsManifest.Proofs.Evaluation.Assignment
import DepsManifest.Proofs.Evaluation.Renaming
import DepsManifest.Proofs.Token.LineEndings
import DepsManifest.Proofs.Evaluation.LineEndings
import DepsManifest.Proofs.Schema.SingleLine
import DepsManifest.Proofs.Report.Markdown
import DepsManifest.Proofs.Report.Inserted
import DepsManifest.Proofs.Expr.Lines
import DepsManifest.Proofs.Statement.Lines
import DepsManifest.Proofs.Text.Quoted
import DepsManifest.Proofs.Value.Equality
import DepsManifest.Proofs.Value.Route
import DepsManifest.Proofs.FirstDifference
import DepsManifest.Proofs.Schema.Distinct
import DepsManifest.Proofs.Schema.Located
import DepsManifest.Proofs.Policy.Identity
import DepsManifest.Proofs.Value.Insertions
import DepsManifest.Proofs.Value.View
import DepsManifest.Proofs.Value.Conversion
import DepsManifest.Proofs.Token.LogicalLines
import DepsManifest.Proofs.Token.Positions
import DepsManifest.Proofs.Token.Gaps
import DepsManifest.Proofs.Token.SingleLiteral
import DepsManifest.Proofs.Operator.Format
import DepsManifest.Proofs.Operator.Remainder
import DepsManifest.Proofs.Operator.Padding
import DepsManifest.Proofs.Policy.Host
import DepsManifest.Proofs.Settings
import DepsManifest.Proofs.Policy.Independence
import DepsManifest.Proofs.Json.Routes
import DepsManifest.Proofs.Report.Masking
import DepsManifest.Proofs.Text.Bytes
import DepsManifest.Proofs.Token.Scanning
import DepsManifest.Proofs.Token.Taken
