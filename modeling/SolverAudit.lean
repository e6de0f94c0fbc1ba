import SolverAudit.Main
import SolverAudit.Proofs.Answer.Ending
import SolverAudit.Proofs.Answer.Grammar
import SolverAudit.Proofs.Answer.Lines
import SolverAudit.Proofs.Answer.Overlap
import SolverAudit.Proofs.Answer.RoundTrip
import SolverAudit.Proofs.Answer.Token
import SolverAudit.Proofs.Argument.Attack
import SolverAudit.Proofs.Argument.Complete
import SolverAudit.Proofs.Argument.FixedPoint
import SolverAudit.Proofs.Argument.Grounded
import SolverAudit.Proofs.Argument.Growth
import SolverAudit.Proofs.Argument.Isolated
import SolverAudit.Proofs.Argument.Label
import SolverAudit.Proofs.Argument.Order
import SolverAudit.Proofs.Argument.Reset
import SolverAudit.Proofs.Argument.Saturation
import SolverAudit.Proofs.Argument.Search
import SolverAudit.Proofs.Argument.Shape
import SolverAudit.Proofs.Argument.Sharing
import SolverAudit.Proofs.Argument.Tables
import SolverAudit.Proofs.Check.Acceptance
import SolverAudit.Proofs.Check.Counting
import SolverAudit.Proofs.Check.Enumeration
import SolverAudit.Proofs.Check.Satisfiability
import SolverAudit.Proofs.Decimal.Notation
import SolverAudit.Proofs.Formula.Assignment
import SolverAudit.Proofs.Formula.Clause
import SolverAudit.Proofs.Formula.Counting
import SolverAudit.Proofs.Formula.Dimacs
import SolverAudit.Proofs.Formula.Growth
import SolverAudit.Proofs.Formula.Mask
import SolverAudit.Proofs.Formula.Models
import SolverAudit.Proofs.Formula.Progress
import SolverAudit.Proofs.Formula.Range
import SolverAudit.Proofs.Formula.Size
import SolverAudit.Proofs.Formula.Weight
import SolverAudit.Proofs.Formula.Weighted
import SolverAudit.Proofs.Ordered.Map
import SolverAudit.Proofs.Problem.Generation
import SolverAudit.Proofs.Problem.Range
import SolverAudit.Proofs.Problem.Size
import SolverAudit.Proofs.Session.Kept
import SolverAudit.Proofs.Session.Run
import SolverAudit.Proofs.Session.Trial
import SolverAudit.Proofs.Status.Count
import SolverAudit.Proofs.Status.Line
import SolverAudit.Proofs.Status.Recognition
import SolverAudit.Proofs.Status.Satisfiability
import SolverAudit.Proofs.Storage.Basic
import SolverAudit.Proofs.Storage.Folder
import SolverAudit.Proofs.Storage.Payload
import SolverAudit.Proofs.Text.Numeral
import SolverAudit.Proofs.Tree.Course
import SolverAudit.Proofs.Tree.DepthFirst
import SolverAudit.Proofs.Tree.Exhaustion
import SolverAudit.Proofs.Tree.Growth
import SolverAudit.Proofs.Tree.Lockstep
import SolverAudit.Proofs.Tree.Progress
import SolverAudit.Proofs.Tree.Projection
import SolverAudit.Proofs.Tree.Size
import SolverAudit.Argument.Index
import SolverAudit.Proofs.Argument.Index
import SolverAudit.Proofs.Tree.Weighting
import SolverAudit.Proofs.Tree.Stopping
import SolverAudit.Proofs.Answer.Front
import SolverAudit.Proofs.Answer.Position
import SolverAudit.Proofs.Answer.Report
import SolverAudit.Proofs.Formula.Writing
import SolverAudit.Proofs.Argument.Listing
import SolverAudit.Argument.Moment
import SolverAudit.Proofs.Argument.Moment
