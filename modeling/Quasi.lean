import Quasi.Arguments.Matching
import Quasi.Bindings
import Quasi.Builtin
import Quasi.Expr.Basic
import Quasi.Expr.Position
import Quasi.Expr.Traversal
import Quasi.Expr.TypeName
import Quasi.Failure.Cause
import Quasi.Failure.Fault
import Quasi.Form.Assign
import Quasi.Form.Condition
import Quasi.Form.Control
import Quasi.Form.Lazy
import Quasi.Form.Member
import Quasi.Form.Quote
import Quasi.Library.Apply
import Quasi.Library.Arguments
import Quasi.Library.Code
import Quasi.Library.Data
import Quasi.Library.Host
import Quasi.Library.Scope
import Quasi.Library.Signal
import Quasi.Library.Text
import Quasi.Machine.Apply
import Quasi.Machine.Basic
import Quasi.Machine.Eval
import Quasi.Machine.Frames
import Quasi.Machine.Masks
import Quasi.Number.Binary64
import Quasi.Number.Numeral
import Quasi.Number.Shortest
import Quasi.Printer.Deparse
import Quasi.Printer.Inspect
import Quasi.Printer.Layout
import Quasi.Quotation.Capture
import Quasi.Quotation.Injection
import Quasi.Quotation.Position
import Quasi.Quotation.Rewrite
import Quasi.Quotation.Splice
import Quasi.Quotation.Substitute
import Quasi.Quotation.Template
import Quasi.Reader.Atom
import Quasi.Reader.Parser
import Quasi.Reader.Token
import Quasi.Session.Basic
import Quasi.Session.Code
import Quasi.Session.Environment
import Quasi.Session.Evaluation
import Quasi.Session.Mask
import Quasi.Session.Promise
import Quasi.Session.Quosure
import Quasi.Settings.Basic
import Quasi.Settings.Logging
import Quasi.Store.Basic
import Quasi.Store.Environment
import Quasi.Text.Blank
import Quasi.Text.Digit
import Quasi.Text.Printable
import Quasi.Text.Quoted
import Quasi.Text.StringLiteral
import Quasi.Text.Surrogate
import Quasi.Text.UpperCase
import Quasi.Value.Arithmetic
import Quasi.Value.Equality
import Quasi.Vector.Arithmetic
import Quasi.Vector.Basic
import Quasi.Vector.Print
import Quasi.Proofs.Capture.Session
import Quasi.Proofs.Chain.Session
import Quasi.Proofs.Flow.Session
import Quasi.Proofs.Promise.RunOnce
import Quasi.Proofs.Reader.Grammar
import Quasi.Proofs.Stack.Session
import Quasi.Proofs.Reader.Lexing
import Quasi.Proofs.Reader.Cut
import Quasi.Proofs.Number.Numeral
import Quasi.Proofs.Number.Written
import Quasi.Proofs.Number.Exact
import Quasi.Proofs.Printer.Atom
import Quasi.Proofs.Printer.ReadBack
import Quasi.Proofs.Printer.Layout
import Quasi.Proofs.Quotation.Part
import Quasi.Proofs.Quotation.Agreement
import Quasi.Proofs.Quotation.Editing
import Quasi.Proofs.Quotation.Written
import Quasi.Proofs.Call.Growth
import Quasi.Proofs.Call.Entry
import Quasi.Proofs.Call.Binding
import Quasi.Proofs.Call.Single
import Quasi.Proofs.Forward.Matching
import Quasi.Proofs.Arguments.Placement
import Quasi.Proofs.Arguments.Order
import Quasi.Proofs.Arguments.Natural
import Quasi.Proofs.Forward.Transparency
import Quasi.Proofs.Embrace.Transparency
import Quasi.Proofs.Embrace.Expansion
import Quasi.Proofs.Return.Inside
import Quasi.Proofs.Return.Target
import Quasi.Proofs.Return.Session
import Quasi.Proofs.Return.Parts
import Quasi.Proofs.Return.Split
import Quasi.Proofs.Return.Overflow
import Quasi.Proofs.Chain.Nesting
import Quasi.Proofs.Condition.Finally
import Quasi.Proofs.Enclosed.Mask
import Quasi.Proofs.Exit.Call
import Quasi.Proofs.Exit.Kept
import Quasi.Proofs.Tidy.Agrees
import Quasi.Proofs.Tidy.Alike
import Quasi.Proofs.Tidy.Fixed
import Quasi.Proofs.Tidy.Stands
import Quasi.Proofs.Tidy.Parts
import Quasi.Proofs.Tidy.Held
import Quasi.Proofs.Tidy.Shown
import Quasi.Proofs.Tidy.Primitive
import Quasi.Proofs.Tidy.Static
import Quasi.Proofs.Tidy.Reference
import Quasi.Proofs.Tidy.Settled
import Quasi.Proofs.Twin.Confined
import Quasi.Proofs.Twin.Stores
import Quasi.Proofs.Twin.Primitive
import Quasi.Proofs.Twin.Masking
import Quasi.Proofs.Unused.Regular
import Quasi.Proofs.Unused.Stores
import Quasi.Proofs.Unused.Binding
import Quasi.Proofs.Unused.Leaving
import Quasi.Proofs.Unused.Argument
import Quasi.Proofs.Grouping.Basic
import Quasi.Proofs.Grouping.Matching
import Quasi.Proofs.Grouping.Listing
import Quasi.Proofs.Grouping.Promises
import Quasi.Proofs.Grouping.Calling
import Quasi.Proofs.Missing.Relay
import Quasi.Proofs.Missing.Moment
import Quasi.Proofs.Missing.Stable
import Quasi.Proofs.Missing.Circle
import Quasi.Proofs.Missing.Answers
import Quasi.Proofs.Footing.Basic
import Quasi.Proofs.Footing.Calls
import Quasi.Proofs.Depth.CountDown
import Quasi.Proofs.Depth.Session
import Quasi.Proofs.Call.Nullary
import Quasi.Proofs.Factory.Counter
import Quasi.Proofs.Factory.Session
import Quasi.Proofs.Named.Element
import Quasi.Proofs.Identical.Element
import Quasi.Proofs.Identical.Row
import Quasi.Proofs.Identical.Data
import Quasi.Proofs.Identical.Equivalence
import Quasi.Proofs.Trace.Trail
import Quasi.Proofs.Trace.Failure
import Quasi.Proofs.Hidden.Calls
import Quasi.Proofs.Hidden.Evaluation
import Quasi.Proofs.Member.Rewriting
import Quasi.Proofs.Member.Trailing
import Quasi.Proofs.Chain.Update
import Quasi.Proofs.Quotation.Composition
import Quasi.Proofs.Quotation.Squash
import Quasi.Proofs.Reader.Tiling
import Quasi.Proofs.Member.Access
