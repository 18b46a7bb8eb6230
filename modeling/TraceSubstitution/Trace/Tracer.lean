import TraceSubstitution.SymbolMap
import TraceSubstitution.Trace.Capture

/-!
# Recording programs

A `Tracer` is a program in the making. `Tracer.call` matches a call with the
signature of its operator, infers the types of the outputs, and records a node
whose outputs are fresh symbols. Nothing is recorded unless all of this succeeds
and every operand belongs to the tracer.

With a capture open, calls that depend on a gradient go to the capture; see
`Capture`.
-/

namespace TraceSubstitution

/-- A program in the making. -/
structure Tracer (α : Type) where
  /-- What sets the trace apart. -/
  id : TraceId
  /-- The types of the symbols, by number. -/
  symbols : List TensorType
  /-- The inputs declared so far. -/
  inputs : List SymbolId
  /-- The calls recorded so far. -/
  nodes : List (Node α)
  /-- The open capture, if there is one. -/
  capture : Option (Capture α)

namespace Tracer

variable {α : Type}

/-- An empty program. -/
def empty (id : TraceId) : Tracer α := ⟨id, [], [], [], none⟩

/-- The number of the next symbol, which is not reduced to 32 bits. -/
def nextId (t : Tracer α) : SymbolId := ⟨t.symbols.length⟩

/-- Whether a symbol is one of this program, with the type it has here. -/
def owns (t : Tracer α) (s : Symbol) : Bool :=
  s.trace = t.id && t.symbols[s.id.index]? = some s.type

/-- Refuses a symbol of another program. -/
def checkOwned (t : Tracer α) (s : Symbol) : Except Failure Unit :=
  ensure (t.owns s) (.tracing (.foreignSymbol s.id s.type))

/-- Refuses the first symbol of another program in a list. -/
def checkAll (t : Tracer α) (symbols : List Symbol) : Except Failure Unit :=
  symbols.forM t.checkOwned

/-- The symbol with a number. -/
def symbol (t : Tracer α) (id : SymbolId) : Except Failure Symbol :=
  (orError (.tracing (.notInTrace id)) t.symbols[id.index]?).map (⟨t.id, id, ·⟩)

/-- The symbols that `declare` adds for a list of types. -/
def fresh (t : Tracer α) (types : List TensorType) : List Symbol :=
  types.zipIdx.map fun (type, i) => ⟨t.id, ⟨t.symbols.length + i⟩, type⟩

/-- Adds one symbol for every type. -/
def declare (t : Tracer α) (types : List TensorType) : Tracer α :=
  { t with symbols := t.symbols ++ types }

/-- Adds a call, to the open capture if it depends on a gradient. -/
def append (t : Tracer α) (n : Node α) : Tracer α :=
  match t.capture with
  | some c =>
    if c.dependsOnGradient n then { t with capture := some (c.divert n) }
    else { t with nodes := t.nodes ++ [n] }
  | none => { t with nodes := t.nodes ++ [n] }

/-- Declares an input of the given type. -/
def input (t : Tracer α) (type : TensorType) : Symbol × Tracer α :=
  (⟨t.id, t.nextId, type⟩, { t.declare [type] with inputs := t.inputs ++ [t.nextId] })

/-- Records a call whose static arguments are bound and whose output types are known. -/
def record (op : NodeOp α) (operands : List (Option Symbol)) (bound : Attrs)
    (outputs : List TensorType) : Act (Tracer α) (List Symbol) := do
  let t ← get
  Act.lift (t.checkAll (operands.flatMap Option.toList))
  let results := t.fresh outputs
  set ((t.declare outputs).append
    ⟨op, operands.map (·.map Symbol.id), bound, results.map Symbol.id⟩)
  return results

/-- Records a call and returns the symbols of its outputs. The static arguments of a high-level
call are bound a second time when its output types are inferred. -/
def call (op : NodeOp α) (operands : List (Option Symbol)) (attrs : Attrs) :
    Act (Tracer α) (List Symbol) := do
  let types := operands.map (·.map Symbol.type)
  let bound ← Act.lift (op.operator.bind types attrs)
  let outputs ← Act.lift <| match op with
    | .kernel o => o.inferBound types bound
    | .highLevel o => o.infer types bound
  record op operands bound outputs

/-- Opens a capture. -/
def beginBackward (t : Tracer α) : Tracer α := { t with capture := some .empty }

/-- Closes the capture and returns what it holds. -/
def endBackward (t : Tracer α) : Fragment α × Tracer α :=
  ((t.capture.map Capture.toFragment).getD ⟨[], []⟩, { t with capture := none })

/-- The placeholder for the gradient of a symbol; asking again gives the same one. -/
def incomingGradient (primal : Symbol) : Act (Tracer α) Symbol := do
  let t ← get
  t.checkOwned primal
  match t.capture with
  | none => Act.lift (.error (.ofCause (.tracing .incomingOutsideBackward)))
  | some c =>
    match c.placeholderFor? primal.id with
    | some existing => t.symbol existing
    | none =>
      set { t.declare [primal.type] with capture := some (c.addPlaceholder t.nextId primal.id) }
      return ⟨t.id, t.nextId, primal.type⟩

/-- Adds a contribution to the gradient of a symbol. -/
def accumulateGradient (target contribution : Symbol) : Act (Tracer α) Unit := do
  let t ← get
  t.checkOwned target
  t.checkOwned contribution
  ensure (target.type = contribution.type)
    (.tracing (.gradientMismatch contribution.type target.type))
  match t.capture with
  | none => Act.lift (.error (.ofCause (.tracing .accumulateOutsideBackward)))
  | some c => set { t with capture := some (c.accumulate target.id contribution.id) }

/-- Adds a call that has been recorded before, with some of its operands renamed. -/
def replay (t : Tracer α) (n : Node α) (renamed : SymbolMap SymbolId) : Tracer α :=
  let rename (id : SymbolId) : SymbolId := (renamed.get? id).getD id
  { t with nodes := t.nodes ++ [{ n with inputs := n.inputs.map (·.map rename) }] }

/-- Closes the program with the given outputs. -/
def finish (t : Tracer α) (outputs : List Symbol) : Except Failure (Trace α) := do
  ensure t.capture.isNone (.tracing .openBackward)
  t.checkAll outputs
  return ⟨t.id, t.symbols, t.inputs, t.nodes, outputs.map Symbol.id⟩

end Tracer

end TraceSubstitution
