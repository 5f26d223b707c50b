import Custody.Analysis.Access
import Custody.Analysis.Assign
import Custody.Analysis.Basic
import Custody.Analysis.Block
import Custody.Analysis.Call
import Custody.Analysis.Context
import Custody.Analysis.Exit
import Custody.Attribute.Basic
import Custody.Attribute.Intrinsic
import Custody.Baseline.Basic
import Custody.Baseline.Format
import Custody.CType
import Custody.Capability.Instance
import Custody.Capability.Mode
import Custody.Capability.Registry
import Custody.Check.Basic
import Custody.Check.Pool
import Custody.Check.Settings
import Custody.CommandLine.Arguments
import Custody.CommandLine.Failure
import Custody.CommandLine.Run
import Custody.Config.Basic
import Custody.Contract.Basic
import Custody.Contract.Binding
import Custody.Contract.Bound
import Custody.Digest.Hex
import Custody.Digest.Sha256
import Custody.Env.Basic
import Custody.Env.Check
import Custody.Env.Effects
import Custody.Expr.Arguments
import Custody.Expr.Basic
import Custody.Expr.Lowering
import Custody.Expr.Parser
import Custody.Expr.Printer
import Custody.Expr.Token
import Custody.FinMap
import Custody.Finding.Cause
import Custody.Finding.Kind
import Custody.Flow.Fixpoint
import Custody.Flow.Order
import Custody.Host.Basic
import Custody.Host.FileTree
import Custody.Json.Basic
import Custody.Json.Number
import Custody.Json.Printer
import Custody.Json.Reader
import Custody.Main
import Custody.Malformed
import Custody.Path
import Custody.Program.Basic
import Custody.Program.Reader
import Custody.Proofs.Analysis.Access
import Custody.Proofs.Analysis.Acyclic
import Custody.Proofs.Analysis.Fixpoint
import Custody.Proofs.Analysis.KnownTruth
import Custody.Proofs.Analysis.Limit
import Custody.Proofs.Analysis.Merge
import Custody.Proofs.Analysis.OldValue
import Custody.Proofs.Analysis.Return
import Custody.Proofs.Analysis.Steering
import Custody.Proofs.Analysis.Suppression
import Custody.Proofs.Analysis.Transient
import Custody.Proofs.Analysis.TryAcquire
import Custody.Proofs.Analysis.VisitingOrder
import Custody.Proofs.Attribute.Printing
import Custody.Proofs.Baseline.Filter
import Custody.Proofs.Baseline.Fingerprint
import Custody.Proofs.Baseline.FirstSeen
import Custody.Proofs.Capability.Alias
import Custody.Proofs.Check.Policy
import Custody.Proofs.Check.Pool
import Custody.Proofs.Contract.Binding
import Custody.Proofs.Contract.Callable
import Custody.Proofs.Contract.StraightLine
import Custody.Proofs.Env.Answers
import Custody.Proofs.Env.Effects
import Custody.Proofs.Env.Evolution
import Custody.Proofs.Env.Frame
import Custody.Proofs.Env.Lattice
import Custody.Proofs.Env.Order
import Custody.Proofs.Env.Queries
import Custody.Proofs.Env.Rank
import Custody.Proofs.Except
import Custody.Proofs.Expr.Grammar
import Custody.Proofs.Expr.Printing
import Custody.Proofs.FinMap
import Custody.Proofs.Flow.Arrivals
import Custody.Proofs.Flow.Convergence
import Custody.Proofs.Flow.Invariant
import Custody.Proofs.Flow.Order
import Custody.Proofs.Flow.Run
import Custody.Proofs.Flow.Sweep
import Custody.Proofs.Flow.Topological
import Custody.Proofs.Flow.Translation
import Custody.Proofs.Flow.Walk
import Custody.Proofs.Path.Describes
import Custody.Proofs.Path.Interpreter
import Custody.Proofs.Path.Reports
import Custody.Proofs.Path.Soundness
import Custody.Proofs.Path.Statements
import Custody.Proofs.Ref.Printing
import Custody.Proofs.Renumber.Analysis
import Custody.Proofs.Report.Canonical
import Custody.Proofs.Report.Order
import Custody.Proofs.Report.Workflow
import Custody.Proofs.Table.Capabilities
import Custody.Proofs.Table.Merging
import Custody.Proofs.Table.ParameterNames
import Custody.Proofs.Table.Templates
import Custody.Proofs.UnitOrder.Check
import Custody.Ref.Basic
import Custody.Ref.Operand
import Custody.Ref.Order
import Custody.Report.Basic
import Custody.Report.Diagnostic
import Custody.Report.Printer
import Custody.Table.Basic
import Custody.Table.Contracts
import Custody.Table.Declarations
import Custody.Table.Guards
import Custody.Table.Problem
import Custody.Table.Scope
import Custody.Text.Blank
import Custody.Text.Quote
import Custody.Time.Timestamp
import Custody.Toml.Basic
import Custody.Toml.Reader
import Custody.Toml.Word
