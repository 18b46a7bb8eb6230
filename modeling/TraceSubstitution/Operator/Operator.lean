import TraceSubstitution.Operator.Operands
import TraceSubstitution.Operator.Signature
import TraceSubstitution.Tensor.Tensor

/-!
# Operators

An `Operator` infers the types of its outputs from the types of its operands, and
computes the outputs from tensors. Both are given the static arguments as the
signature binds them. Whether the outputs have the inferred types is checked by
`executeVerified` only.

An operator is identified by its number, not by its name.
-/

namespace TraceSubstitution

/-- The identity of an operator. -/
structure OperatorId where
  /-- The number that sets the operator apart. -/
  number : Nat
deriving DecidableEq

/-- A named operation on tensors. -/
structure Operator (α : Type) where
  /-- What sets the operator apart. -/
  id : OperatorId
  /-- The namespace the operator belongs to. -/
  space : String
  /-- Its name there. -/
  name : String
  /-- Its operands and static arguments. -/
  signature : Signature
  /-- The types of its outputs. -/
  outputTypes : Operands TensorType → Except Failure (List TensorType)
  /-- Its outputs on tensors whose elements lie in one piece. -/
  compute : Operands (Tensor α) → Except Failure (List (Tensor α))

namespace Operator

variable {α : Type}

/-- The name of an operator with that of its namespace in front. -/
def qualifiedName (o : Operator α) : String := o.space ++ "::" ++ o.name

/-- An operator as it is shown to a person. -/
def detail (o : Operator α) : String := "OperatorHandle(" ++ o.qualifiedName ++ ")"

/-- Matches a call with the signature; returns the bound static arguments. -/
def bind {τ : Type} (o : Operator α) (operands : List (Option τ)) (attrs : Attrs) :
    Except Failure Attrs := do
  o.signature.checkOperands o.qualifiedName operands
  o.signature.bindAttrs o.qualifiedName attrs

/-- The types of the outputs of a call whose static arguments are bound. -/
def inferBound (o : Operator α) (operands : List (Option TensorType)) (bound : Attrs) :
    Except Failure (List TensorType) :=
  withContext s!"meta inference for {o.qualifiedName}" <|
    o.outputTypes ⟨o.qualifiedName, operands, bound⟩

/-- The types of the outputs of a call. -/
def infer (o : Operator α) (operands : List (Option TensorType)) (attrs : Attrs) :
    Except Failure (List TensorType) := do
  let bound ← o.bind operands attrs
  o.inferBound operands bound

/-- The outputs of a call. -/
def execute (o : Operator α) (operands : List (Option (Tensor α))) (attrs : Attrs) :
    Except Failure (List (Tensor α)) := do
  let bound ← o.bind operands attrs
  withContext s!"executing {o.qualifiedName}" <|
    o.compute ⟨o.qualifiedName, operands.map (·.map Tensor.contiguous), bound⟩

/-- The position and types of the first output that differs from its declared type. -/
def firstMismatch? : Nat → List TensorType → List TensorType →
    Option (Nat × TensorType × TensorType)
  | i, d :: declared, p :: produced =>
    if d = p then firstMismatch? (i + 1) declared produced else some (i, d, p)
  | _, _, _ => none

/-- Checks outputs against the types that were inferred for them. -/
def checkOutputs (o : Operator α) (declared : List TensorType) (produced : List TensorType) :
    Except Failure Unit :=
  if declared.length ≠ produced.length then
    .error (.ofCause (.contract
      (.outputArity o.qualifiedName declared.length produced.length)))
  else
    match firstMismatch? 0 declared produced with
    | some (i, d, p) => .error (.ofCause (.contract (.outputType o.qualifiedName i d p)))
    | none => .ok ()

/-- The outputs of a call, after checking that they have the inferred types. -/
def executeVerified (o : Operator α) (operands : List (Option (Tensor α))) (attrs : Attrs) :
    Except Failure (List (Tensor α)) := do
  let outputs ← o.execute operands attrs
  let declared ← o.infer (operands.map (·.map Tensor.type)) attrs
  o.checkOutputs declared (outputs.map Tensor.type)
  return outputs

end Operator

end TraceSubstitution
