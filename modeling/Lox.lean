import Lox.Command
import Lox.Command.Arguments
import Lox.Command.Prompt
import Lox.Command.Report
import Lox.Decimal.Format
import Lox.Decimal.Shortest
import Lox.Diagnostic
import Lox.Evaluation
import Lox.Heap
import Lox.Heap.Text
import Lox.Interrupt
import Lox.Machine
import Lox.Machine.Action
import Lox.Main
import Lox.Parser.Basic
import Lox.Parser.Expression
import Lox.Parser.Statement
import Lox.Proofs.Actions
import Lox.Proofs.Copies.Evaluation
import Lox.Proofs.Copies.Machines
import Lox.Proofs.Copies.Mentions
import Lox.Proofs.Evaluation.Frame
import Lox.Proofs.Evaluation.Moments
import Lox.Proofs.Evaluation.Output
import Lox.Proofs.Evaluation.Preservation
import Lox.Proofs.Evaluation.Readiness
import Lox.Proofs.Evaluation.Scoping
import Lox.Proofs.Evaluation.Soundness
import Lox.Proofs.Grammar
import Lox.Proofs.Grammar.DanglingElse
import Lox.Proofs.Lexical.Correspondence
import Lox.Proofs.Lexical.Equivalence
import Lox.Proofs.Lexical.Frames
import Lox.Proofs.Lexical.Representation
import Lox.Proofs.Lexical.Semantics
import Lox.Proofs.Lexical.Simulation
import Lox.Proofs.Lexical.Steps
import Lox.Proofs.Parser.Acceptance
import Lox.Proofs.Parser.Basic
import Lox.Proofs.Parser.ExpressionCompleteness
import Lox.Proofs.Parser.ExpressionSoundness
import Lox.Proofs.Parser.Numbering
import Lox.Proofs.Parser.Progress
import Lox.Proofs.Parser.Relocation
import Lox.Proofs.Parser.StatementCompleteness
import Lox.Proofs.Parser.StatementSoundness
import Lox.Proofs.Receivers.Methods
import Lox.Proofs.Receivers.Occurrences
import Lox.Proofs.Receivers.Persistence
import Lox.Proofs.Receivers.Sites
import Lox.Proofs.Resolution.Distinct
import Lox.Proofs.Resolution.Joining
import Lox.Proofs.Resolution.Meetings
import Lox.Proofs.Resolution.Relocation
import Lox.Proofs.Resolution.Reports
import Lox.Proofs.Resolution.Rules
import Lox.Proofs.Resolution.Violations
import Lox.Proofs.Resolution.Visits
import Lox.Proofs.Resolution.Walk
import Lox.Proofs.Scan.Joining
import Lox.Proofs.Scan.Tokens
import Lox.Proofs.Session.Agreement
import Lox.Proofs.Session.Context
import Lox.Proofs.Session.Globals
import Lox.Proofs.Session.Histories
import Lox.Proofs.Session.Joining
import Lox.Proofs.Session.Rejection
import Lox.Proofs.Syntax.Ids
import Lox.Proofs.Syntax.Relabel
import Lox.Proofs.Syntax.Shapes
import Lox.Proofs.Syntax.WellFormed
import Lox.Proofs.Tables
import Lox.Resolution
import Lox.Resolution.State
import Lox.Scan
import Lox.Scan.Span
import Lox.Scopes
import Lox.Session
import Lox.Sink
import Lox.Syntax
import Lox.Syntax.Text
import Lox.Syntax.Uses
import Lox.Token
import Lox.Token.Listing
import Lox.Utf8
import Lox.Value
import Lox.Proofs.Resolution.Recordings
import Lox.Proofs.Session.Release
import Lox.Proofs.Scan.Lexemes
import Lox.Proofs.Scan.MaximalMunch
import Lox.Proofs.Scan.Rendering
import Lox.Proofs.Evaluation.Chronology
import Lox.Proofs.Evaluation.CallLimit
import Lox.Proofs.Evaluation.Stepwise
import Lox.Proofs.Evaluation.CallDepth
import Lox.Proofs.Evaluation.Capacity
import Lox.Proofs.Session.LimitedOutput
import Lox.Proofs.Objects.Assignments
import Lox.Proofs.Objects.Integrity
import Lox.Proofs.Objects.Health
import Lox.Proofs.Objects.Invariance
import Lox.Proofs.Objects.Declarations
import Lox.Proofs.Objects.Chronicle
import Lox.Proofs.Objects.Instances
import Lox.Proofs.Objects.Properties
import Lox.Proofs.Parser.Safety
import Lox.Proofs.Parser.Recovery
import Lox.Proofs.Evaluation.FunctionLaws
import Lox.Proofs.Evaluation.Returns
import Lox.Proofs.Session.Returns
import Lox.Proofs.Resolution.OwnReads
import Lox.Proofs.Session.OwnReads
import Lox.Proofs.Session.DirectEvaluation
import Lox.Proofs.Scopes
import Lox.Proofs.Decimal.Rounding
import Lox.Proofs.Decimal.Texts
import Lox.Proofs.Syntax.Forms
import Lox.Proofs.Syntax.Spelling
import Lox.Proofs.Syntax.Printing
import Lox.Proofs.Syntax.Unambiguity
import Lox.Proofs.Lexical.ForLoops
import Lox.Proofs.Lexical.Moments
import Lox.Proofs.Resolution.Discipline
import Lox.Proofs.Session.Identities
import Lox.Proofs.Grammar.ItemLists
import Lox.Proofs.Parser.ExpressionReports
import Lox.Proofs.Parser.StatementReports
import Lox.Proofs.Evaluation.Failures
import Lox.Proofs.Session.Relocation
import Lox.Proofs.Session.Numbering
import Lox.Proofs.Copies.Moments
