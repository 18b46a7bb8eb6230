import TraceSubstitution.Attention.Reference

/-!
# Running attention

What a call needs is settled before its rows are walked: the mask fits the
scores, the buffers can exist, and the rows that are read whatever the scores are
lie in the operands. An output without elements is then known, and so are
gradients that no query contributes to or that have no elements. They are not
computed row by row: the rows of an empty tensor may be many. All other results
are those of `forward` and `backward`.
-/

namespace TraceSubstitution

namespace Attention

namespace Problem

variable {α : Type} [Scalar α]

/-- How many rows of the keys are read: those up to the last key that the last query sees. -/
def keyRows (p : Problem α) : Nat :=
  if p.batch * p.queries * p.keys = 0 then 0
  else (p.batch - 1) * p.keys + (if p.causal then min p.queries p.keys else p.keys)

/-- How many rows of the values the gradients read. -/
def valueRows (p : Problem α) : Nat := if p.queries = 0 then 0 else p.batch * p.keys

/-- The number of elements of the output. -/
def outputSize (p : Problem α) : Nat := p.batch * p.queries * p.valueDepth

/-- Whether the gradients are zero whatever the operands hold: there is no query, or no gradient
has an element. -/
def gradientsVanish (p : Problem α) : Bool :=
  p.batch * p.queries = 0 ||
    p.queries * p.depth + p.keys * p.depth + p.keys * p.valueDepth = 0

/-- Checks what the probabilities need. -/
def checkProbabilities (p : Problem α) (args : Operands (Tensor α)) : Except Failure Unit := do
  checkMask args
  reserve (p.batch * p.queries * p.keys)
  (← (← args.tensor 1).rows p.depth).reach p.keyRows

/-- Checks what the output needs. -/
def checkOutput (p : Problem α) (args : Operands (Tensor α)) : Except Failure Unit := do
  p.checkProbabilities args
  reserve p.outputSize

/-- The output of a call. -/
def output (args : Operands (Tensor α)) : Except Failure (Tensor α) := do
  let p ← ofOperands args
  p.checkOutput args
  if p.outputSize = 0 then
    Tensor.filled (← Require.withLastDim (← args.tensor 0).type p.valueDepth) 0 Scalar.zero
  else forward args

/-- Checks what the gradients need. -/
def checkGradients (p : Problem α) (args : Operands (Tensor α)) : Except Failure Unit := do
  p.checkProbabilities (forwardOperands args)
  reserve (p.batch * p.queries * p.depth)
  reserve (p.batch * p.keys * p.depth)
  reserve (p.batch * p.keys * p.valueDepth)
  reserve p.keys
  (← (← args.tensor 0).rows p.valueDepth).reach (p.batch * p.queries)
  (← (← args.tensor 3).rows p.valueDepth).reach p.valueRows

/-- The gradients of query, key and value; the operands are the gradient of the output followed
by the operands of attention. -/
def operandGradients (args : Operands (Tensor α)) : Except Failure (List (Tensor α)) := do
  let p ← ofOperands (forwardOperands args)
  p.checkGradients args
  if p.gradientsVanish then
    let dQuery ← Tensor.filled (← args.tensor 1).type (p.batch * p.queries * p.depth) Scalar.zero
    let dKey ← Tensor.filled (← args.tensor 2).type (p.batch * p.keys * p.depth) Scalar.zero
    let dValue ← Tensor.filled (← args.tensor 3).type (p.batch * p.keys * p.valueDepth)
      Scalar.zero
    return [dQuery, dKey, dValue]
  else backward args

end Problem

end Attention

end TraceSubstitution
