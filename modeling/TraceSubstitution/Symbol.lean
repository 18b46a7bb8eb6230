import TraceSubstitution.Tensor.TensorType

/-!
# Symbols

While a program is traced its tensors are symbols: a number within the trace, the
trace they belong to, and a tensor type. Two traces may use the same number, so a
symbol carries the identity of its trace as well.
-/

namespace TraceSubstitution

/-- The number of a symbol within its trace. Numbers are not bounded here: a trace is taken to have
no more symbols than 32 bits can count. -/
structure SymbolId where
  /-- The position among the symbols of the trace. -/
  index : Nat
deriving DecidableEq

/-- The identity of a trace, shared by no other trace of a session. -/
structure TraceId where
  /-- The number that sets the trace apart. -/
  number : Nat
deriving DecidableEq

/-- A tensor of a traced program. -/
structure Symbol where
  /-- The trace the symbol belongs to. -/
  trace : TraceId
  /-- Its number there. -/
  id : SymbolId
  /-- The type of the tensor it stands for. -/
  type : TensorType
deriving DecidableEq

/-- A symbol as it is written in traces: `%3`. -/
def SymbolId.text (id : SymbolId) : String := "%" ++ toString id.index

end TraceSubstitution
