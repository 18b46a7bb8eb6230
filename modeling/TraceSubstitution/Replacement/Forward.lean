import TraceSubstitution.Replacement.Progress

/-!
# Forward programs

A forward program computes the outputs of the source. Kernel calls are recorded
again as they are. A high-level call is recorded again if no rule replaces it;
otherwise the execution transform of the rule takes its place.
-/

namespace TraceSubstitution

namespace Replacer

variable {α : Type}

/-- What a high-level call becomes when the given rule replaces it, or none does. -/
def forwardOutputs (p : Progress α) (o : Operator α) (n : Node α)
    (operands : List (Option Symbol)) :
    Option (Rule α) → Except Failure (List Symbol × Progress α)
  | some rule => do
    let context := transformContext "execution" rule.executor o.qualifiedName
    let (outputs, p) ← withContext context <|
      p.withTracer (rule.execution ⟨o.qualifiedName, operands, n.attrs⟩).run
    checkTransform o rule.executor operands n.attrs outputs
    return (outputs, p)
  | none => p.withTracer (Tracer.call (.highLevel o) operands n.attrs)

/-- Records what becomes of one call of the source. -/
def forwardNode (r : Replacer α) (p : Progress α) (index : Nat) (n : Node α) :
    Act (Journaled (Decisions α)) (Progress α) := do
  let operands ← Act.lift (p.operandsFor n)
  match n.op with
  | .kernel o =>
    let (outputs, p) ← Act.lift (p.withTracer (Tracer.call (.kernel o) operands n.attrs))
    Act.lift (p.bindOutputs n outputs)
  | .highLevel o =>
    let (record, rule) ← r.dispatch index o ⟨o.qualifiedName, operands, n.attrs⟩ false
    let (outputs, p) ← Act.lift (forwardOutputs p o n operands rule)
    Act.lift ({ p with report := p.report ++ [record] }.bindOutputs n outputs)

/-- Goes through calls of the source in order; the first one is at position `index`. -/
def forwardNodes (r : Replacer α) : Progress α → Nat → List (Node α) →
    Act (Journaled (Decisions α)) (Progress α)
  | p, _, [] => pure p
  | p, index, n :: nodes => do
    forwardNodes r (← r.forwardNode p index n) (index + 1) nodes

/-- The forward program of a source, under the identity `id`. -/
def forward (r : Replacer α) (id : TraceId) (source : Trace α) :
    Act (Journaled (Decisions α)) (Replaced α) := do
  let p ← Act.lift (Progress.start id source)
  let p ← r.forwardNodes p 0 source.nodes
  let outputs ← Act.lift (source.outputs.mapM p.symbolFor)
  let trace ← Act.lift (p.tracer.finish outputs)
  Journaled.note p.report.finished
  return ⟨trace, p.report⟩

end Replacer

end TraceSubstitution
