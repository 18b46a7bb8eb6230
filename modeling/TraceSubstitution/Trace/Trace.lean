import TraceSubstitution.Operator.Operator
import TraceSubstitution.Symbol

/-!
# Traces

A `Trace` is a finished straight-line program over symbols: its inputs, its nodes
in order, and its outputs. A node calls an operator. A high-level node stands for
any implementation of the operator's promise and may be replaced by one; a kernel
node runs the operator as it is.
-/

namespace TraceSubstitution

/-- What a node calls. -/
inductive NodeOp (α : Type) where
  /-- An operator that may be substituted. A node does not carry the default gradient of its
  operator: the registry finds it by the number of the operator. -/
  | highLevel (op : Operator α)
  /-- An operator that runs as it is. -/
  | kernel (op : Operator α)

namespace NodeOp

variable {α : Type}

/-- The operator that is called. -/
def operator : NodeOp α → Operator α
  | highLevel op => op
  | kernel op => op

/-- Whether the operator may be substituted. -/
def isHighLevel : NodeOp α → Bool
  | highLevel _ => true
  | kernel _ => false

end NodeOp

/-- One call in a trace. -/
structure Node (α : Type) where
  /-- What is called. -/
  op : NodeOp α
  /-- The operands, of which some may be absent. -/
  inputs : List (Option SymbolId)
  /-- The bound static arguments. -/
  attrs : Attrs
  /-- The symbols of the outputs. -/
  outputs : List SymbolId

/-- A finished program over symbols. -/
structure Trace (α : Type) where
  /-- What sets the trace apart. -/
  id : TraceId
  /-- The types of the symbols, by number. -/
  symbols : List TensorType
  /-- The inputs, in the order in which tensors are supplied. -/
  inputs : List SymbolId
  /-- The calls, in the order in which they run. -/
  nodes : List (Node α)
  /-- The outputs. -/
  outputs : List SymbolId

namespace Node

variable {α : Type}

/-- A call as it is written in a trace. -/
def text (n : Node α) : String :=
  let operand : Option SymbolId → String
    | some id => id.text
    | none => "_"
  "  " ++ String.intercalate ", " (n.outputs.map SymbolId.text)
    ++ " = " ++ n.op.operator.qualifiedName
    ++ "(" ++ String.intercalate ", " (n.inputs.map operand) ++ ")"
    ++ (if n.attrs.isEmpty then "" else " " ++ n.attrs.text) ++ "\n"

end Node

namespace Trace

variable {α : Type}

/-- The type of a symbol, if the trace has it. -/
def typeOf? (t : Trace α) (id : SymbolId) : Option TensorType := t.symbols[id.index]?

/-- The symbol with a number, which the trace must have. -/
def symbol (t : Trace α) (id : SymbolId) : Except Failure Symbol :=
  (orPanic .outOfBounds (t.typeOf? id)).map (⟨t.id, id, ·⟩)

/-- The types of the inputs. -/
def inputTypes (t : Trace α) : List TensorType := t.inputs.filterMap t.typeOf?

/-- The types of the outputs. -/
def outputTypes (t : Trace α) : List TensorType := t.outputs.filterMap t.typeOf?

/-- How many nodes call the operator of the given name. -/
def count (t : Trace α) (qualifiedName : String) : Nat :=
  t.nodes.countP (·.op.operator.qualifiedName == qualifiedName)

/-- A trace as a text: the inputs with their types, one line for every call, and the outputs. -/
def text (t : Trace α) : String :=
  let input (id : SymbolId) : String :=
    id.text ++ ": " ++ ((t.typeOf? id).map TensorType.text).getD ""
  "trace(" ++ String.intercalate ", " (t.inputs.map input) ++ ") \x7b\n"
    ++ String.join (t.nodes.map Node.text)
    ++ "  return " ++ String.intercalate ", " (t.outputs.map SymbolId.text) ++ "\n\x7d"

end Trace

end TraceSubstitution
