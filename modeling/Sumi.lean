import Sumi.Text.Ranges
import Sumi.Text.Blank
import Sumi.Text.Alphanumeric
import Sumi.Text.Digit
import Sumi.Text.Printable
import Sumi.Text.Quoted
import Sumi.Text.Literal
import Sumi.Decimal.Shortest
import Sumi.Form.Printer
import Sumi.Form.Reader
import Sumi.Form.Stream
import Sumi.Code.Names
import Sumi.Table
import Sumi.Analysis.Analyze
import Sumi.Code.OfNode
import Sumi.Code.Render
import Sumi.Code.Valid
import Sumi.Machine.Number
import Sumi.Machine.Equality
import Sumi.Machine.Order
import Sumi.Machine.Printer
import Sumi.Machine.State
import Sumi.Machine.Library
import Sumi.Machine.Primitive
import Sumi.Project.Files
import Sumi.Project.Url
import Sumi.Project.Dependencies
import Sumi.Host.Local
import Sumi.Host.Recorder
import Sumi.Check
import Sumi.Session.Loop
import Sumi.CommandLine.Run
import Sumi.Main
import Sumi.Project.Bundled
import Sumi.Tagged
import Sumi.Worker
import Sumi.Proofs.Form.Nesting
import Sumi.Proofs.Form.Scanning
import Sumi.Proofs.Form.Prefix
import Sumi.Proofs.Form.Incremental
import Sumi.Proofs.Analysis.Header
import Sumi.Proofs.Project.Path
import Sumi.Proofs.Project.Tree
import Sumi.Proofs.Project.Growth
import Sumi.Proofs.Project.Room
import Sumi.Proofs.Project.Compile
import Sumi.Proofs.Project.LoadOrder
import Sumi.Proofs.Machine.Results
import Sumi.Proofs.Analysis.Declares
import Sumi.Proofs.Session.Wrapped
import Sumi.Proofs.Session.Lockstep
import Sumi.Proofs.Analysis.Behind
import Sumi.Proofs.Analysis.Course
import Sumi.Proofs.Form.Named
import Sumi.Proofs.Analysis.Scoping
import Sumi.Proofs.Analysis.Rejection
import Sumi.Proofs.Session.Twice
import Sumi.Proofs.Session.Registry
import Sumi.Proofs.Session.Closed
import Sumi.Proofs.Session.Bracketed
import Sumi.Proofs.Form.Printing
import Sumi.Proofs.Session.Quotation
import Sumi.Proofs.Host.Replies
import Sumi.Proofs.Analysis.Separate
import Sumi.Proofs.Machine.Cell
import Sumi.Proofs.Session.Demand
import Sumi.Proofs.Form.Recovery
import Sumi.Proofs.Analysis.History
import Sumi.Proofs.Analysis.Changes
import Sumi.Proofs.Analysis.Repeats
import Sumi.Proofs.Project.Stops
import Sumi.Proofs.Project.Onward
import Sumi.Proofs.Project.Retrace
import Sumi.Proofs.Project.Recompiled
import Sumi.Proofs.Session.Reload
import Sumi.Proofs.Session.Redeclared
import Sumi.Proofs.Form.Marked
import Sumi.Proofs.Analysis.Sugar
import Sumi.Proofs.Text.Literals
import Sumi.Proofs.Text.Spares
import Sumi.Proofs.Code.Lines
import Sumi.Proofs.Code.Constants
import Sumi.Proofs.Analysis.Settled
import Sumi.Proofs.Project.Agreement
import Sumi.Proofs.Machine.Sameness
import Sumi.Proofs.Machine.Equality
import Sumi.Proofs.Machine.Maps
import Sumi.Proofs.Session.FromFile
import Sumi.Proofs.Machine.Indices
import Sumi.Proofs.Project.Given
import Sumi.Proofs.Analysis.Marks
import Sumi.Proofs.Analysis.Arities
import Sumi.Proofs.Machine.Tally
import Sumi.Proofs.Machine.Calling
import Sumi.Proofs.Machine.Sequence
import Sumi.Proofs.Project.Bundle
import Sumi.Proofs.Code.Names
import Sumi.Proofs.Machine.Fresh
import Sumi.Proofs.Project.Fetched
import Sumi.Proofs.Form.Whole
import Sumi.Proofs.Machine.Texts
import Sumi.Proofs.Session.Shown
