import TraceSubstitution.Replacement.Dispatch
import TraceSubstitution.Trace.Recipe

/-!
# Replacing call by call

A replacer goes through the calls of the source and records what they become in a
new program. `Progress` is the new program so far, with the symbol that stands
for each symbol of the source. A call may only use symbols that have been
defined, and a replacement must have exactly the outputs that the operator
promises.
-/

namespace TraceSubstitution

/-- A new program under way. -/
structure Progress (α : Type) where
  /-- The new program. -/
  tracer : Tracer α
  /-- What stands for the symbols of the source. -/
  symbols : SymbolMap Symbol
  /-- What has become of the calls. -/
  report : Report

/-- A program and the report of how it came about. -/
structure Replaced (α : Type) where
  /-- The program. -/
  trace : Trace α
  /-- What became of the calls of the source. -/
  report : Report

namespace Progress

variable {α : Type}

/-- Declares one input of the source. -/
def addInput (source : Trace α) (p : Progress α) (id : SymbolId) :
    Except Failure (Progress α) := do
  let type ← orPanic .outOfBounds (source.typeOf? id)
  let (symbol, tracer) := p.tracer.input type
  return { p with tracer, symbols := p.symbols.insert id symbol }

/-- The beginning of a new program: the inputs of the source. -/
def start (id : TraceId) (source : Trace α) : Except Failure (Progress α) :=
  source.inputs.foldlM (addInput source) ⟨.empty id, .empty, []⟩

/-- What stands for a symbol of the source. -/
def symbolFor (p : Progress α) (id : SymbolId) : Except Failure Symbol :=
  orError (.replacement (.usedBeforeDefined id)) (p.symbols.get? id)

/-- What stands for an operand of the source, which may be absent. -/
def operandFor (p : Progress α) : Option SymbolId → Except Failure (Option Symbol)
  | some id => (p.symbolFor id).map some
  | none => .ok none

/-- What stands for the operands of a call of the source. -/
def operandsFor (p : Progress α) (n : Node α) : Except Failure (List (Option Symbol)) :=
  n.inputs.mapM p.operandFor

/-- Lets symbols stand for the outputs of a call of the source. -/
def bindOutputs (p : Progress α) (n : Node α) (outputs : List Symbol) :
    Except Failure (Progress α) := do
  ensure (outputs.length = n.outputs.length) <| .execution <|
    .outputCount n.op.operator.qualifiedName outputs.length n.outputs.length
  return { p with symbols := p.symbols.insertAll n.outputs outputs }

/-- Does something with the new program. -/
def withTracer {β : Type} (p : Progress α) (x : Act (Tracer α) β) :
    Except Failure (β × Progress α) :=
  (x.outcome p.tracer).map fun (b, tracer) => (b, { p with tracer })

end Progress

/-- The first position at which two lists differ, with what they have there. -/
def firstDifference? : Nat → List TensorType → List TensorType →
    Option (Nat × Option TensorType × Option TensorType)
  | i, d :: declared, p :: produced =>
    if d = p then firstDifference? (i + 1) declared produced else some (i, some d, some p)
  | i, d :: _, [] => some (i, some d, none)
  | i, [], p :: _ => some (i, none, some p)
  | _, [], [] => none

theorem firstDifference?_eq_none_iff {i : Nat} {declared produced : List TensorType} :
    firstDifference? i declared produced = none ↔ declared = produced := by
  induction declared generalizing i produced with
  | nil => cases produced <;> simp [firstDifference?]
  | cons d declared ih =>
    cases produced with
    | nil => simp [firstDifference?]
    | cons p produced =>
      by_cases h : d = p <;> simp [firstDifference?, h, ih]

/-- Checks that a transform produced the outputs that the operator promises. -/
def checkTransform {α : Type} (o : Operator α) (executor : String)
    (operands : List (Option Symbol)) (attrs : Attrs) (outputs : List Symbol) :
    Except Failure Unit := do
  let declared ← o.infer (operands.map (·.map Symbol.type)) attrs
  match firstDifference? 0 declared (outputs.map Symbol.type) with
  | some (i, d, p) => .error (.ofCause (.contract
      (.transformMismatch executor o.qualifiedName i d p)))
  | none => return ()

/-- What is said of an error of a transform. -/
def transformContext (kind executor op : String) : String :=
  s!"{kind} transform of executor '{executor}' for {op}"

end TraceSubstitution
