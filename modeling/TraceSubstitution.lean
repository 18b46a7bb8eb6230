import TraceSubstitution.Attention.Execution
import TraceSubstitution.Attention.Mask
import TraceSubstitution.Attention.Operators
import TraceSubstitution.Attention.Problem
import TraceSubstitution.Attention.Reference
import TraceSubstitution.Attr.Attrs
import TraceSubstitution.Attr.Value
import TraceSubstitution.Attr.Written
import TraceSubstitution.Core
import TraceSubstitution.Dict
import TraceSubstitution.Failure.Cause
import TraceSubstitution.Failure.Failure
import TraceSubstitution.Flash.Checker
import TraceSubstitution.Flash.Config
import TraceSubstitution.Flash.Executor
import TraceSubstitution.Flash.Kernel
import TraceSubstitution.Gradient.Binding
import TraceSubstitution.Journal
import TraceSubstitution.Json.Double
import TraceSubstitution.Json.Fields
import TraceSubstitution.Json.Reader
import TraceSubstitution.Json.Value
import TraceSubstitution.Json.Writer
import TraceSubstitution.Operator.Operands
import TraceSubstitution.Operator.Operator
import TraceSubstitution.Operator.Requirement
import TraceSubstitution.Operator.Signature
import TraceSubstitution.Proofs.Action
import TraceSubstitution.Proofs.Attention.Calls
import TraceSubstitution.Proofs.Attention.Typing
import TraceSubstitution.Proofs.Core
import TraceSubstitution.Proofs.Flash.Registry
import TraceSubstitution.Proofs.Flash.Typing
import TraceSubstitution.Proofs.Gradient.Build
import TraceSubstitution.Proofs.Gradient.Discipline
import TraceSubstitution.Proofs.Gradient.Fragment
import TraceSubstitution.Proofs.Gradient.Fragments
import TraceSubstitution.Proofs.Gradient.Joint
import TraceSubstitution.Proofs.Gradient.Replay
import TraceSubstitution.Proofs.Gradient.Sum
import TraceSubstitution.Proofs.Gradient.Transforms
import TraceSubstitution.Proofs.Operator.Binding
import TraceSubstitution.Proofs.Operator.Execution
import TraceSubstitution.Proofs.Registry.Kernels
import TraceSubstitution.Proofs.Registry.Sound
import TraceSubstitution.Proofs.Replacement.Dispatch
import TraceSubstitution.Proofs.Replacement.History
import TraceSubstitution.Proofs.Replacement.Meaning
import TraceSubstitution.Proofs.Replacement.Plain
import TraceSubstitution.Proofs.Replacement.Progress
import TraceSubstitution.Proofs.Replacement.Steps
import TraceSubstitution.Proofs.SymbolMap
import TraceSubstitution.Proofs.Tensor.Layout
import TraceSubstitution.Proofs.Trace.Calling
import TraceSubstitution.Proofs.Trace.Recorded
import TraceSubstitution.Proofs.Trace.Recording
import TraceSubstitution.Proofs.Trace.Running
import TraceSubstitution.Proofs.Trace.Values
import TraceSubstitution.Random.ChaCha
import TraceSubstitution.Registry.Candidates
import TraceSubstitution.Registry.Policy
import TraceSubstitution.Registry.Registry
import TraceSubstitution.Registry.Rule
import TraceSubstitution.Replacement.Decision
import TraceSubstitution.Replacement.Dispatch
import TraceSubstitution.Replacement.Forward
import TraceSubstitution.Replacement.Joint
import TraceSubstitution.Replacement.Progress
import TraceSubstitution.Replacement.Report
import TraceSubstitution.Scalar.Basic
import TraceSubstitution.Scalar.Rounding
import TraceSubstitution.Scalar.Single
import TraceSubstitution.Settings
import TraceSubstitution.Symbol
import TraceSubstitution.SymbolMap
import TraceSubstitution.Tensor.DType
import TraceSubstitution.Tensor.Device
import TraceSubstitution.Tensor.Rows
import TraceSubstitution.Tensor.Sampling
import TraceSubstitution.Tensor.Shape
import TraceSubstitution.Tensor.Tensor
import TraceSubstitution.Tensor.TensorType
import TraceSubstitution.Tensor.Window
import TraceSubstitution.Tensor.Written
import TraceSubstitution.Text.Blank
import TraceSubstitution.Text.Decimal
import TraceSubstitution.Text.Printable
import TraceSubstitution.Text.Quoted
import TraceSubstitution.Trace.Capture
import TraceSubstitution.Trace.Execution
import TraceSubstitution.Trace.Recipe
import TraceSubstitution.Trace.Trace
import TraceSubstitution.Trace.Tracer
import TraceSubstitution.Proofs.Flash.Programs
import TraceSubstitution.Proofs.Flash.Supplied
import TraceSubstitution.Proofs.Flash.Safety
import TraceSubstitution.Proofs.Attention.Contract
import TraceSubstitution.Proofs.Builtin
import TraceSubstitution.Proofs.Gradient.Additions
import TraceSubstitution.Proofs.Gradient.Composition
import TraceSubstitution.Proofs.Gradient.Exact
import TraceSubstitution.Proofs.Gradient.Running
import TraceSubstitution.Proofs.Trace.Session
import TraceSubstitution.Proofs.Replacement.Interface
import TraceSubstitution.Proofs.Gradient.Moments
import TraceSubstitution.Proofs.Gradient.Interface
import TraceSubstitution.Proofs.Trace.Eager
import TraceSubstitution.Proofs.Trace.Renumbering
import TraceSubstitution.Proofs.Replacement.Copying
import TraceSubstitution.Proofs.Trace.Affordable
import TraceSubstitution.Proofs.Gradient.Typing
import TraceSubstitution.Proofs.Replacement.Placement
import TraceSubstitution.Proofs.Flash.Agreement
import TraceSubstitution.Proofs.Trace.Verification
import TraceSubstitution.Proofs.Registry.Registrations
import TraceSubstitution.Proofs.Trace.Numbering
import TraceSubstitution.Proofs.Replacement.Canonical
import TraceSubstitution.Proofs.Flash.Exact
import TraceSubstitution.Proofs.Flash.Padding
import TraceSubstitution.Proofs.Flash.Isolation
import TraceSubstitution.Proofs.Attention.Differential
import TraceSubstitution.Proofs.Attention.Adjoint
import TraceSubstitution.Proofs.Flash.Differential
import TraceSubstitution.Proofs.Tensor.Views
import TraceSubstitution.Proofs.Operator.Views
import TraceSubstitution.Proofs.Attention.Broadcast
import TraceSubstitution.Proofs.Registry.Selection
import TraceSubstitution.Proofs.Trace.CallKinds
import TraceSubstitution.Proofs.Trace.Refusals
import TraceSubstitution.Proofs.Gradient.Refused
import TraceSubstitution.Proofs.Registry.Policies
import TraceSubstitution.Proofs.Registry.Reach
import TraceSubstitution.Proofs.Scalar.Patterns
import TraceSubstitution.Proofs.Tensor.Narrowed
import TraceSubstitution.Proofs.Scalar.Special
import TraceSubstitution.Proofs.Flash.Special
import TraceSubstitution.Proofs.Registry.Allowed
import TraceSubstitution.Proofs.Gradient.Taint
import TraceSubstitution.Proofs.Tensor.Axes
