import TraceSubstitution.Flash.Checker
import TraceSubstitution.Flash.Kernel
import TraceSubstitution.Registry.Registry
import TraceSubstitution.Settings

/-!
# The fused executor

The fused executor owns two operators that wrap a fused kernel, `flash_fwd` and
`flash_bwd`, and one rule that replaces attention by them. The operators panic if
the kernel is not available: the checker of the rule refuses every call then, so
nothing should get there. The default scale is worked out when the rule is
applied and passed on as a static argument.
-/

namespace TraceSubstitution

namespace Flash

/-- The name of the executor. -/
def executorName : String := "flash"

/-- The version of the executor. -/
def executorVersion : String := "0.1"

/-- Adds the static arguments of the fused operators to a signature. -/
def withAttrs (s : Signature) : Signature :=
  (s.attr "is_causal" .bool (.bool false)).attr "scale" .optionalFloat .unset

/-- The operands of `flash_fwd`. -/
def forwardSignature : Signature :=
  withAttrs (((Signature.empty.tensor "q").tensor "k").tensor "v")

/-- The operands of `flash_bwd`. -/
def backwardSignature : Signature :=
  withAttrs ((((((Signature.empty.tensor "d_out").tensor "q").tensor "k").tensor "v").tensor
    "out").tensor "softmax_lse")

/-- The types of the output and of the logarithms. -/
def forwardTypes (args : Operands TensorType) : Except Failure (TensorType × TensorType) := do
  let q ← args.tensor 0
  let k ← args.tensor 1
  let v ← args.tensor 2
  Require.rank "q" q 4
  Require.rank "k" k 4
  Require.rank "v" v 4
  Require.sameDType "q" q "k" k
  Require.sameDType "q" q "v" v
  Require.sameDevice "q" q "k" k
  Require.sameDevice "q" q "v" v
  Require.sameDim 0 "q" q "k" k
  Require.sameDim 0 "q" q "v" v
  Require.sameDim 1 "q" q "k" k
  Require.sameDim 1 "q" q "v" v
  Require.sameDim 3 "q" q "k" k
  Require.sameDim 2 "k" k "v" v
  let out ← Require.withLastDim q (← Require.lastDim v)
  let lseShape ← orPanic .noAxes (Shape.ofDims? (q.dims.take 3))
  return (out, ⟨lseShape, .f32, q.device⟩)

/-- The types of the gradients of queries, keys and values. -/
def backwardTypes (args : Operands TensorType) : Except Failure (List TensorType) := do
  let dOut ← args.tensor 0
  let q ← args.tensor 1
  let k ← args.tensor 2
  let v ← args.tensor 3
  let (expectedOut, expectedLse) ← forwardTypes { args with tensors := [some q, some k, some v] }
  let out ← args.tensor 4
  let lse ← args.tensor 5
  ensure (out = expectedOut && dOut = expectedOut)
    (.flash (.unlikeForward dOut out expectedOut))
  ensure (lse = expectedLse) (.flash (.logSumType lse expectedLse))
  return [q, k, v]

variable {α : Type} [Scalar α]

/-- Panics if the kernel is not available. -/
def requireAvailable (kernel : FlashKernel α) (available : Bool) : Except Failure Unit :=
  if available then .ok () else .error (.panic (.kernelUnavailable kernel.name))

/-- The outputs of `flash_fwd`. -/
def computeForward (kernel : FlashKernel α) (available : Bool) (args : Operands (Tensor α)) :
    Except Failure (List (Tensor α)) := do
  requireAvailable kernel available
  let q ← args.tensor 0
  let scale ← Attention.softmaxScale args.attrs (← Require.lastDim q.type)
  let causal ← args.attrs.bool "is_causal"
  let result ← kernel.forward q (← args.tensor 1) (← args.tensor 2) (Scalar.ofFloat scale) causal
  return [result.primary, result.auxiliary]

/-- A gradient narrowed to the width of the operand it belongs to. -/
def unpad (gradient operand : Tensor α) : Except Failure (Tensor α) := do
  let width ← Require.lastDim operand.type
  if (← Require.lastDim gradient.type) = width then return gradient
  else return (← gradient.narrow (operand.type.rank - 1) 0 width).contiguous

/-- The outputs of `flash_bwd`. -/
def computeBackward (kernel : FlashKernel α) (available : Bool) (args : Operands (Tensor α)) :
    Except Failure (List (Tensor α)) := do
  requireAvailable kernel available
  let q ← args.tensor 1
  let k ← args.tensor 2
  let v ← args.tensor 3
  let scale ← Attention.softmaxScale args.attrs (← Require.lastDim q.type)
  let causal ← args.attrs.bool "is_causal"
  let dOut ← args.tensor 0
  let out ← args.tensor 4
  let lse ← args.tensor 5
  let g ← kernel.backward ⟨dOut, q, k, v, out, lse⟩ (Scalar.ofFloat scale) causal
  return [← unpad g.dq q, ← unpad g.dk k, ← unpad g.dv v]

/-- The operators of the executor. -/
structure Operators (α : Type) where
  /-- `flash_fwd`. -/
  forward : Operator α
  /-- `flash_bwd`. -/
  backward : Operator α

/-- The static arguments of the fused operators. -/
def callAttrs (causal : Bool) (scale : Float) : Attrs :=
  .ofList [("is_causal", .bool causal), ("scale", .float scale)]

/-- What the fused operators need of a call of attention. -/
structure Call where
  /-- The queries. -/
  query : Symbol
  /-- The keys. -/
  key : Symbol
  /-- The values. -/
  value : Symbol
  /-- The static arguments that are passed on. -/
  attrs : Attrs

/-- What the fused operators need of the operands of a call of attention. -/
def Call.ofOperands (args : Operands Symbol) : Except Failure Call := do
  let query ← args.tensor 0
  let scale ← Attention.softmaxScale args.attrs (← Require.lastDim query.type)
  let key ← args.tensor 1
  let value ← args.tensor 2
  let causal ← args.attrs.bool "is_causal"
  return ⟨query, key, value, callAttrs causal scale⟩

/-- Calls `flash_fwd`; returns the output and the logarithms. -/
def Call.forward (c : Call) (ops : Operators α) : Recipe α (Symbol × Symbol) := do
  match ← Recipe.outputsOf (.kernel ops.forward) [some c.query, some c.key, some c.value]
    c.attrs with
  | primary :: auxiliary :: _ => return (primary, auxiliary)
  | _ => Recipe.lift (.error (.ofCause (.flash .forwardOutputs)))

/-- Attention becomes `flash_fwd`. -/
def execution (ops : Operators α) : Transform α := fun args => do
  let c ← Recipe.lift (Call.ofOperands args)
  let (primary, _) ← c.forward ops
  return [primary]

/-- Attention becomes `flash_fwd` and, for the gradients of its operands, `flash_bwd`. -/
def gradient (ops : Operators α) : Transform α := fun args => do
  let c ← Recipe.lift (Call.ofOperands args)
  let (primary, auxiliary) ← c.forward ops
  let dOut ← Recipe.incomingGradient primary
  match ← Recipe.outputsOf (.kernel ops.backward)
    [some dOut, some c.query, some c.key, some c.value, some primary, some auxiliary] c.attrs with
  | [dq, dk, dv] =>
    Recipe.accumulateGradient c.query dq
    Recipe.accumulateGradient c.key dk
    Recipe.accumulateGradient c.value dv
    return [primary]
  | _ => Recipe.lift (.error (.ofCause (.flash .backwardOutputs)))

/-- The rule of the executor. -/
def substitution (config : FlashConfig) (available : Bool) (ops : Operators α) :
    Substitution α where
  target := Attention.operator
  admits := checker config available
  execution := execution ops
  gradient := some (gradient ops)
  priority := 0

/-- What a registration produced. -/
structure Executor (α : Type) where
  /-- The operators. -/
  operators : Operators α
  /-- Whether the kernel is available. -/
  available : Bool
  /-- What the kernel supports. -/
  config : FlashConfig

/-- The event of a kernel that was asked whether it can run. -/
def probeEvent (kernel : FlashKernel α) (available : Bool) : Event where
  level := .debug
  message := "probed fused attention kernel"
  fields := [("kernel", kernel.name), ("available", toString available)]

/-- The event of a kernel on hardware other than the configured one. -/
def deviceEvent (kernel : FlashKernel α) (config : FlashConfig) : Event where
  level := .warn
  message := "fused kernel device kind differs from the configured one"
  fields := [("kernel", kernel.name), ("kernel_device", kernel.deviceKind.text),
    ("configured", config.deviceKind.text)]

/-- The event of a registered executor. -/
def registeredEvent (available : Bool) : Event where
  level := .debug
  message := "registered flash executor"
  fields := [("executor", executorName), ("version", executorVersion),
    ("available", toString available)]

open Journaled in
/-- Registers the operators of the executor. -/
def registerOperators (kernel : FlashKernel α) (available : Bool) :
    Act (Journaled (Registry α)) (Operators α) := do
  let forward ← Registry.registerOperator executorName "flash_fwd" forwardSignature
    (fun args => do
      let (out, lse) ← forwardTypes args
      return [out, lse])
    (computeForward kernel available)
  let backward ← Registry.registerOperator executorName "flash_bwd" backwardSignature
    backwardTypes (computeBackward kernel available)
  return ⟨forward, backward⟩

open Journaled in
/-- Registers the executor with a given configuration, for a kernel that is known to be available
or not. -/
def register (kernel : FlashKernel α) (config : FlashConfig) (available : Bool) :
    Act (Journaled (Registry α)) (Executor α) := do
  if kernel.deviceKind ≠ config.deviceKind then note (deviceEvent kernel config)
  Registry.registerNamespace executorName executorVersion
  let ops ← registerOperators kernel available
  Registry.registerRule executorName (substitution config available ops)
  note (registeredEvent available)
  return ⟨ops, available, config⟩

open Journaled in
/-- Asks the kernel whether it can run, unless a switch turns it off, and registers the executor
with the standard configuration. -/
def registerProbed (kernel : FlashKernel α) (disabled : Option String) :
    Act (Journaled (Registry α)) (Executor α) := do
  let available := !Settings.switch disabled false && kernel.probe
  note (probeEvent kernel available)
  register kernel .standard available

end Flash

end TraceSubstitution
