import TraceSubstitution.Gradient.Binding
import TraceSubstitution.Replacement.Progress

/-!
# Joint programs

A joint program computes the outputs of the source and then the gradients of its
inputs. It takes the inputs of the source and one cotangent for every output, and
it returns the outputs and one gradient for every input.

Every call of the source is replaced by a gradient transform, which records the
forward part at once and leaves the backward part in a fragment. When all calls
are done the cotangents are bound to the outputs, and the fragments are replayed
from the last to the first, so that all contributions to the gradient of a symbol
have been added when a fragment asks for it. A gradient to which nothing
contributes is zero.
-/

namespace TraceSubstitution

/-- The backward part of a program in the making. -/
abbrev Backward (α : Type) : Type := Tracer α × GradientBinding

namespace Backward

variable {α : Type} [Scalar α]

/-- Does something with the program and leaves the gradients alone. -/
def onTracer {β : Type} (x : Act (Tracer α) β) : Act (Backward α) β := fun (t, grads) =>
  let (result, t) := x.apply t
  (result, t, grads)

/-- Declares an input that flows into the gradient of an output. -/
def addCotangent (output : Symbol) : Act (Backward α) Unit := do
  let (t, grads) ← get
  let (cotangent, t) := t.input output.type
  set ((t, grads) : Backward α)
  GradientBinding.accumulate output.id cotangent

/-- The gradient of a symbol so far, or zeros of the type of `primal`. -/
def gradientOrZeros (id : SymbolId) (primal : Act (Tracer α) Symbol) :
    Act (Backward α) Symbol := do
  match (← get).2.get? id with
  | some gradient => return gradient
  | none => onTracer (do Core.traceZerosLike (← primal))

/-- What takes the place of the placeholders of a fragment. -/
def resolve (placeholders : List (SymbolId × SymbolId)) : Act (Backward α) (SymbolMap SymbolId) :=
  placeholders.foldlM (fun renamed (placeholder, primal) => do
    let gradient ← gradientOrZeros primal (do Act.lift ((← get).symbol primal))
    return renamed.insert placeholder gradient.id) .empty

/-- Replays one part of a fragment, with its placeholders renamed. -/
def replayStep (renamed : SymbolMap SymbolId) : BackwardStep α → Act (Backward α) Unit
  | .node n => onTracer (modify (·.replay n renamed))
  | .accumulate target contribution => do
    let contribution ← onTracer (do
      Act.lift ((← get).symbol ((renamed.get? contribution).getD contribution)))
    GradientBinding.accumulate target contribution

/-- Replays a fragment: its placeholders are resolved first, all of them. -/
def replay (f : Fragment α) : Act (Backward α) Unit := do
  let renamed ← resolve f.placeholders
  f.steps.forM (replayStep renamed)

/-- Builds the backward part of a program from the fragments of its calls; returns the gradients
of the inputs. -/
def build (outputs inputs : List Symbol) (fragments : List (Fragment α)) :
    Act (Backward α) (List Symbol) := do
  outputs.forM addCotangent
  fragments.reverse.forM replay
  inputs.mapM fun input => gradientOrZeros input.id (pure input)

end Backward

namespace Replacer

variable {α : Type} [Scalar α]

/-- The gradient transform of a call and the executor it comes from, when the given rule
replaces the call or none does. -/
def gradientTransform (r : Replacer α) (o : Operator α) :
    Option (Rule α) → Except Failure (Transform α × String)
  | some rule =>
    (orError (.replacement (.lostGradient o.name)) rule.gradient).map (·, rule.executor)
  | none =>
    (orError (.replacement (.noDefaultGradient o.qualifiedName))
      (r.registry.defaultGradient? o.id)).map (·, o.space)

/-- Records the forward part of a call; returns its outputs and the backward part. -/
def jointOutputs (r : Replacer α) (p : Progress α) (o : Operator α) (n : Node α)
    (operands : List (Option Symbol)) (rule : Option (Rule α)) :
    Except Failure (List Symbol × Fragment α × Progress α) := do
  let (transform, executor) ← r.gradientTransform o rule
  let opened := { p with tracer := p.tracer.beginBackward }
  let (outputs, p) ← withContext (transformContext "gradient" executor o.qualifiedName) <|
    opened.withTracer (transform ⟨o.qualifiedName, operands, n.attrs⟩).run
  let (fragment, tracer) := p.tracer.endBackward
  checkTransform o executor operands n.attrs outputs
  return (outputs, fragment, { p with tracer })

/-- Records what becomes of one call of the source; returns its backward part. -/
def jointNode (r : Replacer α) (p : Progress α) (index : Nat) (n : Node α) :
    Act (Journaled (Decisions α)) (Progress α × Fragment α) := do
  match n.op with
  | .kernel o =>
    Act.lift (.error (.ofCause (.replacement (.kernelWithoutGradient o.qualifiedName))))
  | .highLevel o =>
    let operands ← Act.lift (p.operandsFor n)
    let (record, rule) ← r.dispatch index o ⟨o.qualifiedName, operands, n.attrs⟩ true
    let (outputs, fragment, p) ← Act.lift (r.jointOutputs p o n operands rule)
    let p ← Act.lift ({ p with report := p.report ++ [record] }.bindOutputs n outputs)
    return (p, fragment)

/-- Goes through calls of the source in order; the first one is at position `index`. The backward
parts are in the order of the calls. -/
def jointNodes (r : Replacer α) : Progress α → Nat → List (Node α) →
    Act (Journaled (Decisions α)) (Progress α × List (Fragment α))
  | p, _, [] => pure (p, [])
  | p, index, n :: nodes => do
    let (p, fragment) ← r.jointNode p index n
    let (p, fragments) ← jointNodes r p (index + 1) nodes
    return (p, if fragment.isEmpty then fragments else fragment :: fragments)

/-- The joint program of a source, under the identity `id`. -/
def joint (r : Replacer α) (id : TraceId) (source : Trace α) :
    Act (Journaled (Decisions α)) (Replaced α) := do
  let p ← Act.lift (Progress.start id source)
  let (p, fragments) ← r.jointNodes p 0 source.nodes
  let outputs ← Act.lift (source.outputs.mapM p.symbolFor)
  let inputs ← Act.lift (source.inputs.mapM p.symbolFor)
  let (gradients, tracer, _) ← Act.lift <|
    (Backward.build outputs inputs fragments).outcome (p.tracer, .empty)
  let trace ← Act.lift (tracer.finish (outputs ++ gradients))
  Journaled.note p.report.finished
  return ⟨trace, p.report⟩

end Replacer

end TraceSubstitution
