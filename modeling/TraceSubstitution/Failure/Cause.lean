import TraceSubstitution.Attr.Value
import TraceSubstitution.Symbol

/-!
# Causes of errors

Every way in which a program can be refused is a value of `Cause`, grouped by
what was being done. The wording is in the `message` functions and nowhere else.
-/

namespace TraceSubstitution

/-- Errors of operations on tensors. -/
inductive TensorError where
  | lengthMismatch (length : Nat) (dims : List Nat)
  | axisOutOfRange (axis rank : Nat)
  | rangeExceeds (start stop axis extent : Nat)
  | unlikeOperands (lhs rhs : TensorType)
  | incomparable (lhs rhs : Shape)

/-- Errors of reading a static argument or an operand. -/
inductive ArgumentError where
  | wrongKind (name : String) (expected : AttrKind) (found : Option AttrValue)
  | absentOperand (op : String) (index : Nat)

/-- Errors of matching a call with the signature of its operator. -/
inductive SignatureError where
  | unknownAttr (op attr : String)
  | attrKindMismatch (op attr : String) (expected found : AttrKind)
  | missingAttr (op attr : String)
  | tensorArity (op : String) (expected found : Nat)
  | missingTensor (op name : String)

/-- Requirements on operand types that do not hold. -/
inductive RequirementError where
  | rank (name : String) (expected : Nat) (found : Shape)
  | dtype (lhsName : String) (lhs : DType) (rhsName : String) (rhs : DType)
  | device (lhsName : String) (lhs : Device) (rhsName : String) (rhs : Device)
  | shape (lhsName : String) (lhs : Shape) (rhsName : String) (rhs : Shape)
  | dim (axis : Nat) (lhsName : String) (lhs : Nat) (rhsName : String) (rhs : Nat)

/-- Errors of attention problems. -/
inductive AttentionError where
  | queryRank (query : Shape)
  | ranksDisagree (query key value : Shape)
  | notFloat (found : DType)
  | batchDisagrees (query key value : Shape)
  | maskNotFloat (found : DType)
  | notBroadcastable (source target : List Nat)
  | dropoutOutOfRange (p : Float)
  | gradientMismatch (gradient output : TensorType)

/-- Errors of recording a program. -/
inductive TracingError where
  | notInTrace (id : SymbolId)
  | foreignSymbol (id : SymbolId) (type : TensorType)
  | incomingOutsideBackward
  | accumulateOutsideBackward
  | gradientMismatch (gradient primal : TensorType)
  | openBackward
  | notSingle

/-- Errors of running a program. -/
inductive ExecutionError where
  | inputCount (expected found : Nat)
  | inputType (index : Nat) (found declared : TensorType)
  | noValue (id : SymbolId)
  | outputCount (op : String) (produced expected : Nat)
  | neverComputed (id : SymbolId)

/-- Errors of replacing the calls of a program. -/
inductive ReplacementError where
  | usedBeforeDefined (id : SymbolId)
  | kernelWithoutGradient (op : String)
  | lostGradient (op : String)
  | noDefaultGradient (op : String)

/-- Errors of reading a policy. -/
inductive PolicyError where
  | missingExecutor
  | unrecognised (text : String)

/-- Errors of registering namespaces and operators. -/
inductive RegistryError where
  | nameCollision (space name : String)
  | namespaceCollision (name : String)
  | unknownNamespace (name : String)

/-- Broken promises between operators, checkers and transforms. -/
inductive ContractViolation where
  | outputType (op : String) (index : Nat) (expected actual : TensorType)
  | outputArity (op : String) (expected actual : Nat)
  | transformMismatch (executor op : String) (index : Nat) (expected actual : Option TensorType)

/-- Errors of the fused attention kernel and its operators. -/
inductive FlashError where
  | invalidConfig
  | rank (name : String) (found : Shape)
  | notContiguous (name : String)
  | batchHeadsDisagree (q k v : Shape)
  | headDimsDisagree (q k : Shape)
  | lengthsDisagree (k v : Shape)
  | outputMismatch (gradient output : Shape)
  | logSumLength (found expected : Nat)
  | scatteredBuffers
  | forwardOutputs
  | backwardOutputs
  | unlikeForward (gradient output expected : TensorType)
  | logSumType (found expected : TensorType)

/-- Why an operation was refused. -/
inductive Cause where
  | tensor (e : TensorError)
  | argument (e : ArgumentError)
  | signature (e : SignatureError)
  | requirement (e : RequirementError)
  | attention (e : AttentionError)
  | tracing (e : TracingError)
  | execution (e : ExecutionError)
  | replacement (e : ReplacementError)
  | policy (e : PolicyError)
  | registry (e : RegistryError)
  | contract (e : ContractViolation)
  | flash (e : FlashError)
  /-- A reason stated by an operator or a transform in its own words. -/
  | stated (text : String)

namespace TensorError

/-- The wording of an error. -/
def message : TensorError → String
  | lengthMismatch length dims =>
    s!"tensor data length ({length}) does not match shape {dimsText dims}"
  | axisOutOfRange axis rank => s!"narrow axis {axis} out of range for rank {rank}"
  | rangeExceeds start stop axis extent =>
    s!"narrow range {start}..{stop} exceeds dimension {axis} of size {extent}"
  | unlikeOperands lhs rhs => s!"add operands must share metadata: {lhs.text} vs {rhs.text}"
  | incomparable lhs rhs => s!"cannot compare tensors of shape {lhs.text} and {rhs.text}"

end TensorError

namespace ArgumentError

/-- What a static argument should have been, with its article. -/
def expectation : AttrKind → String
  | .bool => "a bool"
  | .int => "an int"
  | .float => "a float"
  | .optionalFloat => "an optional float"

/-- The wording of an error. -/
def message : ArgumentError → String
  | wrongKind name expected found =>
    s!"static argument '{name}' is not {expectation expected}: "
      ++ match expected, found with
        | .optionalFloat, some v => v.detail
        | _, found => foundText found
  | absentOperand op index => s!"{op}: tensor operand {index} is absent"

end ArgumentError

namespace SignatureError

/-- The wording of an error. -/
def message : SignatureError → String
  | unknownAttr op attr => s!"{op}: unknown static argument '{attr}'"
  | attrKindMismatch op attr expected found =>
    s!"{op}: static argument '{attr}' expects {expected.text}, got {found.text}"
  | missingAttr op attr => s!"{op}: missing required static argument '{attr}'"
  | tensorArity op expected found => s!"{op}: expected {expected} tensor operands, got {found}"
  | missingTensor op name => s!"{op}: required tensor operand '{name}' is absent"

end SignatureError

namespace RequirementError

/-- The wording of an error. -/
def message : RequirementError → String
  | rank name expected found => s!"{name} must have rank {expected}, got shape {found.text}"
  | dtype lhsName lhs rhsName rhs =>
    s!"{lhsName} dtype {lhs.text} does not match {rhsName} dtype {rhs.text}"
  | device lhsName lhs rhsName rhs =>
    s!"{lhsName} lives on {lhs.text} but {rhsName} lives on {rhs.text}"
  | shape lhsName lhs rhsName rhs =>
    s!"{lhsName} shape {lhs.text} does not match {rhsName} shape {rhs.text}"
  | dim axis lhsName lhs rhsName rhs =>
    s!"{lhsName} dim {axis} ({lhs}) does not match {rhsName} dim {axis} ({rhs})"

end RequirementError

namespace AttentionError

/-- The wording of an error. -/
def message : AttentionError → String
  | queryRank query => s!"attention query must have rank >= 2, got {query.text}"
  | ranksDisagree query key value =>
    s!"attention query, key, and value must share rank: {query.text} / {key.text} / {value.text}"
  | notFloat found => s!"attention requires a float dtype, got {found.text}"
  | batchDisagrees query key value =>
    s!"attention batch dims disagree: {query.text} / {key.text} / {value.text}"
  | maskNotFloat found => s!"attn_mask must be additive (float), got {found.text}"
  | notBroadcastable source target =>
    s!"cannot broadcast {dimsText source} to {dimsText target}"
  | dropoutOutOfRange p => "dropout_p must be in [0, 1), got " ++ NumberStyle.plain.write p
  | gradientMismatch gradient output =>
    s!"grad_out {gradient.text} does not match attention output {output.text}"

end AttentionError

namespace TracingError

/-- The wording of an error. -/
def message : TracingError → String
  | notInTrace id => s!"symbol {id.text} does not belong to this trace"
  | foreignSymbol id type => s!"symbol {id.text} ({type.text}) does not belong to this trace"
  | incomingOutsideBackward =>
    "incoming_gradient is only available while building a backward graph"
  | accumulateOutsideBackward =>
    "accumulate_gradient is only available while building a backward graph"
  | gradientMismatch gradient primal =>
    s!"gradient {gradient.text} does not match its primal {primal.text}"
  | openBackward => "cannot finish a trace with an open backward capture"
  | notSingle => "expected a single output"

end TracingError

namespace ExecutionError

/-- The wording of an error. -/
def message : ExecutionError → String
  | inputCount expected found => s!"trace expects {expected} inputs, got {found}"
  | inputType index found declared =>
    s!"input {index} is {found.text}, trace declares {declared.text}"
  | noValue id => s!"symbol {id.text} has no value yet"
  | outputCount op produced expected =>
    s!"{op} produced {produced} outputs, trace expects {expected}"
  | neverComputed id => s!"trace output {id.text} was never computed"

end ExecutionError

namespace ReplacementError

/-- The wording of an error. -/
def message : ReplacementError → String
  | usedBeforeDefined id => s!"symbol {id.text} is used before it is defined"
  | kernelWithoutGradient op => s!"{op} is a kernel node and has no gradient rule"
  | lostGradient op => s!"rule for {op} lost its gradient transform"
  | noDefaultGradient op => s!"{op} has no default gradient and no executor admits it"

end ReplacementError

namespace PolicyError

/-- The wording of an error. -/
def message : PolicyError → String
  | missingExecutor => "force override requires an executor name"
  | unrecognised text => s!"unrecognised substitution policy: {text}"

end PolicyError

namespace RegistryError

/-- The wording of an error. -/
def message : RegistryError → String
  | nameCollision space name =>
    s!"operator '{name}' is already registered in executor namespace '{space}'"
  | namespaceCollision name => s!"executor namespace '{name}' is already registered"
  | unknownNamespace name => s!"unknown executor namespace '{name}'"

end RegistryError

namespace ContractViolation

/-- A declared or produced output, which may be missing altogether. -/
def outputText : Option TensorType → String
  | none => "nothing"
  | some type => type.text

/-- The wording of an error. -/
def message : ContractViolation → String
  | outputType op index expected actual =>
    s!"operator '{op}' output {index} violates its meta contract: declared {expected.text}, "
      ++ s!"produced {actual.text}"
  | outputArity op expected actual =>
    s!"operator '{op}' declared {expected} outputs but produced {actual}"
  | transformMismatch executor op index expected actual =>
    s!"executor '{executor}' rewrote '{op}' into output {index} = {outputText actual}, "
      ++ s!"but the operator declares {outputText expected}"

end ContractViolation

namespace FlashError

/-- The wording of an error. -/
def message : FlashError → String
  | invalidConfig => "invalid flash executor config"
  | rank name found => s!"fused attention expects rank-4 {name}, got {found.text}"
  | notContiguous name => s!"fused attention expects contiguous {name}"
  | batchHeadsDisagree q k v => s!"batch/head dims disagree: {q.text} / {k.text} / {v.text}"
  | headDimsDisagree q k => s!"q and k head dims disagree: {q.text} / {k.text}"
  | lengthsDisagree k v => s!"k and v lengths disagree: {k.text} / {v.text}"
  | outputMismatch gradient output =>
    s!"d_out {gradient.text} and out {output.text} must match the attention output"
  | logSumLength found expected => s!"lse has {found} elements, expected {expected}"
  | scatteredBuffers =>
    "Condition failed: `d_out.is_contiguous() && out.is_contiguous() && lse.is_contiguous()`"
  | forwardOutputs => "flash_fwd must produce (out, softmax_lse)"
  | backwardOutputs => "flash_bwd must produce (dq, dk, dv)"
  | unlikeForward gradient output expected =>
    s!"d_out {gradient.text} and out {output.text} must match the forward output {expected.text}"
  | logSumType found expected => s!"softmax_lse {found.text} must match {expected.text}"

end FlashError

/-- The wording of a cause. -/
def Cause.message : Cause → String
  | tensor e => e.message
  | argument e => e.message
  | signature e => e.message
  | requirement e => e.message
  | attention e => e.message
  | tracing e => e.message
  | execution e => e.message
  | replacement e => e.message
  | policy e => e.message
  | registry e => e.message
  | contract e => e.message
  | flash e => e.message
  | stated text => text

end TraceSubstitution
