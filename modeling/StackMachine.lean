import StackMachine.Builtin.Arithmetic
import StackMachine.Builtin.Comparison
import StackMachine.Builtin.Control
import StackMachine.Builtin.Conversion
import StackMachine.Builtin.Literal
import StackMachine.Builtin.Operand
import StackMachine.Builtin.Table
import StackMachine.Catalog
import StackMachine.Cbor.Head
import StackMachine.Cbor.Item
import StackMachine.Command.Options
import StackMachine.Command.Report
import StackMachine.Command.Run
import StackMachine.Duration
import StackMachine.Engine.Basic
import StackMachine.Engine.Host
import StackMachine.Engine.Log
import StackMachine.Engine.Run
import StackMachine.Execution
import StackMachine.Fault
import StackMachine.FileTree
import StackMachine.Main
import StackMachine.Manifest.Basic
import StackMachine.Manifest.Search
import StackMachine.Pathname
import StackMachine.Program.Builder
import StackMachine.Program.Listing
import StackMachine.Program.Source
import StackMachine.Rational.Arithmetic
import StackMachine.Rational.Basic
import StackMachine.Rational.Decimal
import StackMachine.Rational.Text
import StackMachine.Registry
import StackMachine.Routine
import StackMachine.Script
import StackMachine.Snapshot.Basic
import StackMachine.Snapshot.Wire
import StackMachine.Stack
import StackMachine.Stack.Host
import StackMachine.Tape
import StackMachine.Text.Calendar
import StackMachine.Text.Decimal
import StackMachine.Text.Integer
import StackMachine.Text.Layout
import StackMachine.Text.Printable
import StackMachine.Text.Quoted
import StackMachine.Text.Split
import StackMachine.Text.Utf8
import StackMachine.Toml.Basic
import StackMachine.Toml.Document
import StackMachine.Toml.Number
import StackMachine.Toml.Reader
import StackMachine.Toml.Strings
import StackMachine.Value
import StackMachine.Yaml.Implicit
import StackMachine.Yaml.Scalar
import StackMachine.Proofs.Trail
import StackMachine.Proofs.Moves
import StackMachine.Proofs.WellFormed
import StackMachine.Proofs.Accounting
import StackMachine.Proofs.Strict
import StackMachine.Proofs.Builtin.Shape
import StackMachine.Proofs.Lockstep
import StackMachine.Proofs.LeastLimit
import StackMachine.Proofs.Builtin.Failure
import StackMachine.Proofs.Protocol
import StackMachine.Proofs.Builtin.Arity
import StackMachine.Proofs.Program.Boundary
import StackMachine.Proofs.Rational.Arithmetic
import StackMachine.Proofs.Rational.Integer
import StackMachine.Proofs.Program.Literals
import StackMachine.Proofs.Builtin.Agreement
import StackMachine.Proofs.Rational.Separation
import StackMachine.Proofs.Alike
import StackMachine.Proofs.Resume
import StackMachine.Proofs.Builtin.Fractions
import StackMachine.Proofs.Finality
import StackMachine.Proofs.Halting
import StackMachine.Proofs.Cbor.Reader
import StackMachine.Proofs.Room
import StackMachine.Proofs.Snapshot.Wire
import StackMachine.Proofs.Cbor.Extent
import StackMachine.Proofs.Snapshot.Reread
import StackMachine.Proofs.FileTree
import StackMachine.Proofs.Command.Report
import StackMachine.Proofs.Builtin.Growth
import StackMachine.Proofs.Rational.Operation
import StackMachine.Proofs.Builtin.Rounding
import StackMachine.Proofs.Builtin.Order
import StackMachine.Proofs.Rational.Decimal
import StackMachine.Proofs.Rational.Shortest
import StackMachine.Proofs.Rational.Numeral
import StackMachine.Proofs.Rendering
import StackMachine.Proofs.Program.Walk
import StackMachine.Proofs.Builtin.References
import StackMachine.Proofs.Program.Repair
import StackMachine.Proofs.Builtin.Strings
import StackMachine.Proofs.Text.Split
import StackMachine.Proofs.Text.Integer
import StackMachine.Proofs.Program.Source
import StackMachine.Proofs.Program.Builder
import StackMachine.Proofs.Program.Readback
import StackMachine.Proofs.Builtin.Words
import StackMachine.Proofs.Registrations
import StackMachine.Proofs.Manifest
import StackMachine.Proofs.Log
import StackMachine.Proofs.Course
import StackMachine.Proofs.Builtin.Termination
import StackMachine.Proofs.BoundedList
import StackMachine.Proofs.Program.Lines
