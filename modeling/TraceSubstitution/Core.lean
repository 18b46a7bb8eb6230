import TraceSubstitution.Attention.Operators

/-!
# Core operators

`core::add` sums two tensors of one type; it also adds up the contributions to a
gradient. `core::zeros_like` makes the gradient of a symbol that nothing depends
on. With the two operators of attention they make up the `core` namespace.
-/

namespace TraceSubstitution

namespace Core

variable {α : Type} [Scalar α]

/-- The type of a sum. -/
def sumType (args : Operands TensorType) : Except Failure TensorType := do
  let lhs ← args.tensor 0
  let rhs ← args.tensor 1
  Require.sameShape "add lhs" lhs "rhs" rhs
  Require.sameDType "add lhs" lhs "rhs" rhs
  Require.sameDevice "add lhs" lhs "rhs" rhs
  return lhs

/-- `core::add`. -/
def add : Operator α where
  id := ⟨0⟩
  space := coreSpace
  name := "add"
  signature := (Signature.empty.tensor "lhs").tensor "rhs"
  outputTypes args := do return [← sumType args]
  compute args := do return [← (← args.tensor 0).add (← args.tensor 1)]

/-- `core::zeros_like`. -/
def zerosLike : Operator α where
  id := ⟨1⟩
  space := coreSpace
  name := "zeros_like"
  signature := Signature.empty.tensor "input"
  outputTypes args := do return [← args.tensor 0]
  compute args := do return [Tensor.zeros (← args.tensor 0).type]

/-- The gradient of a sum: what flows into it flows into both operands. -/
def addGradient : Transform α := fun args => do
  let lhs ← args.tensor 0
  let rhs ← args.tensor 1
  let out ← single (← Recipe.outputsOf (.highLevel add) [some lhs, some rhs] .empty)
  let incoming ← Recipe.incomingGradient out
  Recipe.accumulateGradient lhs incoming
  Recipe.accumulateGradient rhs incoming
  return [out]

/-- Addition with its own gradient. -/
def addHighLevel : HighLevelOp α := ⟨add, some addGradient⟩

/-- Records a sum as a high-level call. -/
def traceAdd (lhs rhs : Symbol) : Act (Tracer α) Symbol := do
  single (← Tracer.call (.highLevel add) [some lhs, some rhs] .empty)

/-- Records a tensor of zeros of the type of a symbol. -/
def traceZerosLike (input : Symbol) : Act (Tracer α) Symbol := do
  single (← Tracer.call (.kernel zerosLike) [some input] .empty)

/-- The operators of the `core` namespace, in the order in which they are registered. -/
def operators : List (Operator α) :=
  [add, zerosLike, Attention.operator, Attention.backwardOperator]

/-- The operators of the `core` namespace that may be substituted. -/
def highLevelOperators : List (HighLevelOp α) := [addHighLevel, Attention.highLevel]

end Core

end TraceSubstitution
