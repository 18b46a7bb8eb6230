import TraceSubstitution.Journal
import TraceSubstitution.SymbolMap
import TraceSubstitution.Trace.Trace

/-!
# Running programs

A trace runs on one tensor for each of its inputs. The calls run in order, each
on the values its operands have by then, and every output is the value of its
symbol in the end. With `verify` the outputs of every call are checked against
the types that its operator infers.
-/

namespace TraceSubstitution

namespace Trace

variable {α : Type}

/-- The event of a call that is about to run. -/
def executing (op : NodeOp α) : Event where
  level := .trace
  message := "executing node"
  fields := [("op", op.operator.qualifiedName), ("high_level", toString op.isHighLevel)]

/-- Gives the inputs their tensors, which must have the declared types. -/
def bindInputs (t : Trace α) (tensors : List (Tensor α)) :
    Except Failure (SymbolMap (Tensor α)) := do
  ensure (tensors.length = t.inputs.length)
    (.execution (.inputCount t.inputs.length tensors.length))
  (t.inputs.zip tensors).zipIdx.foldlM (fun values ((id, tensor), index) => do
    let declared ← orPanic .outOfBounds (t.typeOf? id)
    ensure (declared = tensor.type) (.execution (.inputType index tensor.type declared))
    return values.insert id tensor) .empty

/-- The value of a symbol, which must have one. -/
def valueOf (values : SymbolMap (Tensor α)) (id : SymbolId) : Except Failure (Tensor α) :=
  orError (.execution (.noValue id)) (values.get? id)

/-- The value of an operand that may be absent. -/
def operandOf (values : SymbolMap (Tensor α)) : Option SymbolId → Except Failure (Option (Tensor α))
  | some id => (valueOf values id).map some
  | none => .ok none

/-- The outputs of a call on the given operands. -/
def computeNode (verify : Bool) (n : Node α) (operands : List (Option (Tensor α))) :
    Except Failure (List (Tensor α)) := do
  let o := n.op.operator
  let outputs ← if verify then o.executeVerified operands n.attrs else o.execute operands n.attrs
  ensure (outputs.length = n.outputs.length)
    (.execution (.outputCount o.qualifiedName outputs.length n.outputs.length))
  return outputs

/-- Runs one call; returns the values with those of its outputs added. -/
def runNode (verify : Bool) (values : SymbolMap (Tensor α)) (n : Node α) :
    Act Journal (SymbolMap (Tensor α)) := do
  let operands ← Act.lift (n.inputs.mapM (operandOf values))
  modify (· ++ [executing n.op])
  let outputs ← Act.lift (computeNode verify n operands)
  return values.insertAll n.outputs outputs

/-- Runs calls in order. -/
def runNodes (verify : Bool) : List (Node α) → SymbolMap (Tensor α) →
    Act Journal (SymbolMap (Tensor α))
  | [], values => pure values
  | n :: nodes, values => do runNodes verify nodes (← runNode verify values n)

/-- The values of the outputs. -/
def outputValues (t : Trace α) (values : SymbolMap (Tensor α)) : Except Failure (List (Tensor α)) :=
  t.outputs.mapM fun id => orError (.execution (.neverComputed id)) (values.get? id)

/-- Runs a program and writes the calls to the journal. -/
def run (t : Trace α) (tensors : List (Tensor α)) (verify : Bool) :
    Act Journal (List (Tensor α)) := do
  let values ← Act.lift (t.bindInputs tensors)
  let values ← runNodes verify t.nodes values
  Act.lift (t.outputValues values)

/-- The outputs of a program. -/
def execute (t : Trace α) (tensors : List (Tensor α)) (verify : Bool) :
    Except Failure (List (Tensor α)) := ((t.run tensors verify).apply []).1

end Trace

end TraceSubstitution
