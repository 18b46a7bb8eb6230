import TraceSubstitution.Attention.Execution
import TraceSubstitution.Trace.Recipe

/-!
# Attention operators

`core::scaled_dot_product_attention` is a high-level operator: its reference
implementation runs unless something replaces it. Query, key and value have any
number of leading batch axes, which agree, and the mask is optional. Its gradient
calls `core::sdpa_backward` on the incoming gradient; the mask is a constant.
-/

namespace TraceSubstitution

/-- The namespace of the operators that every registry has. -/
def coreSpace : String := "core"

/-- Static arguments of a call of attention. -/
structure AttentionOptions where
  /-- The share of probabilities that is dropped. -/
  dropout : Float
  /-- Whether a query sees only the keys up to its own number. -/
  causal : Bool
  /-- What the products are multiplied by, unless it follows from the depth. -/
  scale : Option Float
  /-- The seed of the dropout mask. -/
  seed : Int64

/-- The options as static arguments. -/
def AttentionOptions.attrs (o : AttentionOptions) : Attrs :=
  .ofList [("dropout_p", .float o.dropout), ("is_causal", .bool o.causal),
    ("scale", (o.scale.map AttrValue.float).getD .unset), ("seed", .int o.seed)]

namespace Attention

/-- Adds the static arguments of attention to a signature. -/
def withAttrs (s : Signature) : Signature :=
  (((s.attr "dropout_p" .float (.float 0)).attr "is_causal" .bool (.bool false)).attr
    "scale" .optionalFloat .unset).attr "seed" .int (.int 0)

/-- The operands and static arguments of attention. -/
def signature : Signature :=
  withAttrs ((((Signature.empty.tensor "query").tensor "key").tensor "value").optionalTensor
    "attn_mask")

/-- The operands and static arguments of the gradient of attention. -/
def backwardSignature : Signature :=
  withAttrs (((((Signature.empty.tensor "grad_out").tensor "query").tensor "key").tensor
    "value").optionalTensor "attn_mask")

/-- Whether a mask may be added to the scores of a call. -/
def checkMask (query key mask : TensorType) : Except Failure Unit := do
  Require.sameDevice "query" query "attn_mask" mask
  ensure mask.dtype.isFloat (.attention (.maskNotFloat mask.dtype))
  discard <| maskStrides query key mask

/-- The type of the output of attention. -/
def outputType (args : Operands TensorType) : Except Failure TensorType := do
  let query ← args.tensor 0
  let key ← args.tensor 1
  let value ← args.tensor 2
  let rank := query.rank
  ensure (2 ≤ rank) (.attention (.queryRank query.shape))
  ensure (key.rank = rank && value.rank = rank)
    (.attention (.ranksDisagree query.shape key.shape value.shape))
  ensure query.dtype.isFloat (.attention (.notFloat query.dtype))
  Require.sameDType "query" query "key" key
  Require.sameDType "query" query "value" value
  Require.sameDevice "query" query "key" key
  Require.sameDevice "query" query "value" value
  ensure (query.dims.take (rank - 2) = key.dims.take (rank - 2)
      && query.dims.take (rank - 2) = value.dims.take (rank - 2))
    (.attention (.batchDisagrees query.shape key.shape value.shape))
  Require.sameDim (rank - 1) "query" query "key" key
  Require.sameDim (rank - 2) "key" key "value" value
  match args.optional 3 with
  | some mask => checkMask query key mask
  | none => pure ()
  let dropout ← args.attrs.float "dropout_p"
  ensure (0 ≤ dropout && dropout < 1) (.attention (.dropoutOutOfRange dropout))
  Require.withLastDim query (← Require.lastDim value)

/-- The types of the gradients of query, key and value. -/
def gradientTypes (args : Operands TensorType) : Except Failure (List TensorType) := do
  let gradient ← args.tensor 0
  let query ← args.tensor 1
  let key ← args.tensor 2
  let value ← args.tensor 3
  let output ← outputType { args with
    tensors := [some query, some key, some value, args.optional 4] }
  ensure (gradient = output) (.attention (.gradientMismatch gradient output))
  return [query, key, value]

variable {α : Type} [Scalar α]

/-- `core::scaled_dot_product_attention`. -/
def operator : Operator α where
  id := ⟨2⟩
  space := coreSpace
  name := "scaled_dot_product_attention"
  signature := signature
  outputTypes args := do return [← outputType args]
  compute args := do return [← Problem.output args]

/-- `core::sdpa_backward`. -/
def backwardOperator : Operator α where
  id := ⟨3⟩
  space := coreSpace
  name := "sdpa_backward"
  signature := backwardSignature
  outputTypes := gradientTypes
  compute := Problem.operandGradients

/-- Adds gradients to the operands they belong to; absent operands have none. -/
def accumulateAll : List (Option Symbol) → List Symbol → Recipe α Unit
  | some primal :: primals, g :: gradients => do
    Recipe.accumulateGradient primal g
    accumulateAll primals gradients
  | none :: primals, _ :: gradients => accumulateAll primals gradients
  | _, _ => pure ()

/-- The gradient of attention: attention itself, and its backward operator on the gradient that
flows into the output. -/
def gradient : Transform α := fun args => do
  let out ← single (← Recipe.outputsOf (.highLevel operator) args.tensors args.attrs)
  let incoming ← Recipe.incomingGradient out
  let gradients ← Recipe.outputsOf (.kernel backwardOperator) (some incoming :: args.tensors)
    args.attrs
  accumulateAll args.tensors gradients
  return [out]

/-- Attention with its own gradient. -/
def highLevel : HighLevelOp α := ⟨operator, some gradient⟩

/-- Records a call of attention. -/
def trace (query key value : Symbol) (mask : Option Symbol) (options : AttentionOptions) :
    Act (Tracer α) Symbol := do
  single (← Tracer.call (.highLevel operator) [some query, some key, some value, mask]
    options.attrs)

end Attention

end TraceSubstitution
