import TraceSubstitution.Proofs.Action
import TraceSubstitution.Replacement.Forward
import TraceSubstitution.Replacement.Joint

/-!
# Forward and joint programs call by call

A replacer goes through the calls of a source in the same way for both kinds of
program: it finds what stands for the operands, decides which rule replaces the
call, records what the call becomes, and lets the results stand for the outputs.
`Replacer.step` is one call in either mode, `Replacer.steps` all of them, and
`Replacer.answer` a whole request.

`Replacer.decisions` are the decisions that are made for a request, those before
a failure included.
-/

namespace TraceSubstitution

/-- A source for which a replacer is asked for a program. -/
structure Request (α : Type) where
  /-- Whether the program is to have gradients. -/
  gradient : Bool
  /-- The identity of the program. -/
  id : TraceId
  /-- The source. -/
  source : Trace α

/-- A decision with the call that it is about. -/
structure Decided (α : Type) where
  /-- The operator that is called. -/
  op : Operator α
  /-- Whether the program is to have gradients. -/
  gradient : Bool
  /-- The operands and static arguments. -/
  args : Operands Symbol
  /-- What is reported. -/
  record : DispatchRecord
  /-- The rule that replaces the call, if any does. -/
  rule : Option (Rule α)

/-- What the decision depends on. -/
def Decided.key {α : Type} (d : Decided α) : DispatchKey := .ofCall d.op.id d.gradient d.args

namespace Replacer

section

variable {α : Type} (r : Replacer α)

/-- What a high-level call becomes. A forward program has no backward part. -/
def replacement (gradient : Bool) (p : Progress α) (o : Operator α) (n : Node α)
    (operands : List (Option Symbol)) (rule : Option (Rule α)) :
    Except Failure (List Symbol × Fragment α × Progress α) :=
  if gradient then r.jointOutputs p o n operands rule
  else do
    let (outputs, p) ← forwardOutputs p o n operands rule
    return (outputs, ⟨[], []⟩, p)

/-- What a kernel call becomes. A joint program has none. -/
def kernelStep (gradient : Bool) (p : Progress α) (o : Operator α) (n : Node α) :
    Except Failure (Progress α × Fragment α) :=
  if gradient then .error (.ofCause (.replacement (.kernelWithoutGradient o.qualifiedName)))
  else do
    let operands ← p.operandsFor n
    let (outputs, p) ← p.withTracer (Tracer.call (.kernel o) operands n.attrs)
    return (← p.bindOutputs n outputs, ⟨[], []⟩)

/-- What a high-level call becomes after the decision about it, with its outputs bound. -/
def decidedStep (gradient : Bool) (p : Progress α) (o : Operator α) (n : Node α)
    (operands : List (Option Symbol)) (record : DispatchRecord) (rule : Option (Rule α)) :
    Except Failure (Progress α × Fragment α) := do
  let (outputs, fragment, p) ← r.replacement gradient p o n operands rule
  return (← { p with report := p.report ++ [record] }.bindOutputs n outputs, fragment)

/-- One call of the source in either mode. -/
def step (gradient : Bool) (p : Progress α) (index : Nat) (n : Node α) :
    Act (Journaled (Decisions α)) (Progress α × Fragment α) :=
  match n.op with
  | .kernel o => Act.lift (kernelStep gradient p o n)
  | .highLevel o => do
    let operands ← Act.lift (p.operandsFor n)
    let (record, rule) ← r.dispatch index o ⟨o.qualifiedName, operands, n.attrs⟩ gradient
    Act.lift (r.decidedStep gradient p o n operands record rule)

/-- Calls of the source in order, in either mode; the first one is at position `index`. -/
def steps (gradient : Bool) : Progress α → Nat → List (Node α) →
    Act (Journaled (Decisions α)) (Progress α × List (Fragment α))
  | p, _, [] => pure (p, [])
  | p, index, n :: nodes => do
    let (p, fragment) ← r.step gradient p index n
    let (p, fragments) ← steps gradient p (index + 1) nodes
    return (p, if fragment.isEmpty then fragments else fragment :: fragments)

/-- The decision about one call, if the call gets that far. -/
def decision? (gradient : Bool) (p : Progress α) (index : Nat) (n : Node α)
    (s : Journaled (Decisions α)) : Option (Decided α) :=
  match n.op, p.operandsFor n with
  | .highLevel o, .ok operands =>
    let args : Operands Symbol := ⟨o.qualifiedName, operands, n.attrs⟩
    match ((r.dispatch index o args gradient).apply s).1 with
    | .ok (record, rule) => some ⟨o, gradient, args, record, rule⟩
    | .error _ => none
  | _, _ => none

/-- The decisions about calls in order, up to a failure. -/
def nodeDecisions (gradient : Bool) : Progress α → Nat → List (Node α) →
    Journaled (Decisions α) → List (Decided α)
  | _, _, [], _ => []
  | p, index, n :: nodes, s =>
    (r.decision? gradient p index n s).toList ++
      match (r.step gradient p index n).apply s with
      | (.ok (p, _), s) => nodeDecisions gradient p (index + 1) nodes s
      | (.error _, _) => []

/-- The decisions that are made for a request. -/
def decisions (q : Request α) (s : Journaled (Decisions α)) : List (Decided α) :=
  match Progress.start q.id q.source with
  | .ok p => r.nodeDecisions q.gradient p 0 q.source.nodes s
  | .error _ => []

variable {r : Replacer α} {gradient : Bool} {p p' : Progress α} {index : Nat} {n : Node α}
  {nodes : List (Node α)} {s s' : Journaled (Decisions α)}

theorem apply_step_kernel {o : Operator α} (hop : n.op = .kernel o) :
    (r.step gradient p index n).apply s = (kernelStep gradient p o n, s) := by
  unfold step
  rw [hop]
  rfl

theorem apply_step_highLevel {o : Operator α} (hop : n.op = .highLevel o)
    {operands : List (Option Symbol)} (hoperands : p.operandsFor n = .ok operands) :
    (r.step gradient p index n).apply s =
      match (r.dispatch index o ⟨o.qualifiedName, operands, n.attrs⟩ gradient).apply s with
      | (.ok (record, rule), s') => (r.decidedStep gradient p o n operands record rule, s')
      | (.error e, s') => (.error e, s') := by
  unfold step
  simp only [hop, Act.apply_bind, Act.apply_lift, hoperands]
  rcases (r.dispatch index o ⟨o.qualifiedName, operands, n.attrs⟩ gradient).apply s with
    ⟨_ | _, _⟩
  · rfl
  · rfl

theorem apply_step_of_operandsFor_error {o : Operator α} (hop : n.op = .highLevel o) {e : Failure}
    (hoperands : p.operandsFor n = .error e) :
    (r.step gradient p index n).apply s = (.error e, s) := by
  unfold step
  simp only [hop, Act.apply_bind, Act.apply_lift, hoperands]

/-- Calls in order: the others follow when the first one succeeds. -/
theorem apply_steps_cons (r : Replacer α) (gradient : Bool) (p : Progress α) (index : Nat)
    (n : Node α) (nodes : List (Node α)) (s : Journaled (Decisions α)) :
    (r.steps gradient p index (n :: nodes)).apply s =
      match (r.step gradient p index n).apply s with
      | (.ok (p', fragment), s') =>
        (((r.steps gradient p' (index + 1) nodes).apply s').1.map fun (p'', fragments) =>
            (p'', if fragment.isEmpty then fragments else fragment :: fragments),
          ((r.steps gradient p' (index + 1) nodes).apply s').2)
      | (.error e, s') => (.error e, s') := by
  rw [steps, Act.apply_bind]
  rcases (r.step gradient p index n).apply s with ⟨e | ⟨p', fragment⟩, s'⟩
  · rfl
  · simp only [Act.apply_bind]
    rcases (r.steps gradient p' (index + 1) nodes).apply s' with ⟨e | ⟨p'', fragments⟩, s''⟩
    · rfl
    · rfl

/-- Calls in order succeed if the first one does and then the others. -/
theorem steps_cons_eq_ok_iff {fragments : List (Fragment α)} :
    (r.steps gradient p index (n :: nodes)).apply s = (.ok (p', fragments), s') ↔
      ∃ p₁ fragment s₁ rest, (r.step gradient p index n).apply s = (.ok (p₁, fragment), s₁) ∧
        (r.steps gradient p₁ (index + 1) nodes).apply s₁ = (.ok (p', rest), s') ∧
          fragments = if fragment.isEmpty then rest else fragment :: rest := by
  rw [steps, Act.apply_bind_eq_ok_iff]
  constructor
  · rintro ⟨⟨p₁, fragment⟩, s₁, hstep, h⟩
    obtain ⟨⟨p₂, rest⟩, s₂, hrest, hpure⟩ := Act.apply_bind_eq_ok_iff.1 h
    obtain rfl : s₂ = s' := (Prod.mk.inj hpure).2
    obtain ⟨rfl, rfl⟩ := Prod.mk.inj (Except.ok.inj (Prod.mk.inj hpure).1)
    exact ⟨p₁, fragment, s₁, rest, hstep, hrest, rfl⟩
  · rintro ⟨p₁, fragment, s₁, rest, hstep, hrest, rfl⟩
    exact ⟨(p₁, fragment), s₁, hstep, Act.apply_bind_eq_ok_iff.2 ⟨(p', rest), s', hrest, rfl⟩⟩

/-- A call in a forward program. -/
theorem forwardNode_eq (r : Replacer α) (p : Progress α) (index : Nat) (n : Node α) :
    r.forwardNode p index n = Prod.fst <$> r.step false p index n := by
  apply Act.ext
  intro s
  rw [Act.apply_map]
  unfold forwardNode
  cases hop : n.op with
  | kernel o =>
    rw [apply_step_kernel hop]
    unfold kernelStep
    simp only [Act.apply_bind, Act.apply_lift, Bool.false_eq_true, ↓reduceIte]
    cases p.operandsFor n with
    | error e => rfl
    | ok operands =>
      simp only [ok_bind]
      cases p.withTracer (Tracer.call (.kernel o) operands n.attrs) with
      | error e => rfl
      | ok result =>
        simp only [ok_bind]
        cases result.2.bindOutputs n result.1 with
        | error e => rfl
        | ok p' => rfl
  | highLevel o =>
    simp only [Act.apply_bind, Act.apply_lift]
    cases hoperands : p.operandsFor n with
    | error e =>
      rw [apply_step_of_operandsFor_error hop hoperands]
      rfl
    | ok operands =>
      rw [apply_step_highLevel hop hoperands]
      simp only
      rcases (r.dispatch index o ⟨o.qualifiedName, operands, n.attrs⟩ false).apply s with
        ⟨e | ⟨record, rule⟩, s'⟩
      · rfl
      · unfold decidedStep replacement
        simp only [Bool.false_eq_true, ↓reduceIte]
        cases forwardOutputs p o n operands rule with
        | error e => rfl
        | ok result =>
          simp only [ok_bind, pure_eq_ok]
          cases Progress.bindOutputs { result.2 with report := result.2.report ++ [record] } n
              result.1 with
          | error e => rfl
          | ok p' => rfl

/-- A call in a joint program. -/
theorem jointNode_eq (r : Replacer α) (p : Progress α) (index : Nat) (n : Node α) :
    r.jointNode p index n = r.step true p index n := by
  apply Act.ext
  intro s
  unfold jointNode
  cases hop : n.op with
  | kernel o =>
    rw [apply_step_kernel hop]
    rfl
  | highLevel o =>
    simp only [Act.apply_bind, Act.apply_lift]
    cases hoperands : p.operandsFor n with
    | error e =>
      rw [apply_step_of_operandsFor_error hop hoperands]
    | ok operands =>
      rw [apply_step_highLevel hop hoperands]
      simp only
      rcases (r.dispatch index o ⟨o.qualifiedName, operands, n.attrs⟩ true).apply s with
        ⟨e | ⟨record, rule⟩, s'⟩
      · rfl
      · unfold decidedStep replacement
        simp only [↓reduceIte]
        cases r.jointOutputs p o n operands rule with
        | error e => rfl
        | ok result =>
          simp only [ok_bind, pure_eq_ok]
          cases Progress.bindOutputs { result.2.2 with report := result.2.2.report ++ [record] } n
              result.1 with
          | error e => rfl
          | ok p' => rfl

theorem forwardNodes_eq (r : Replacer α) (nodes : List (Node α)) (p : Progress α) (index : Nat) :
    r.forwardNodes p index nodes = Prod.fst <$> r.steps false p index nodes := by
  induction nodes generalizing p index with
  | nil => rfl
  | cons n nodes ih =>
    apply Act.ext
    intro s
    rw [Act.apply_map, apply_steps_cons, forwardNodes, forwardNode_eq]
    simp only [ih, Act.apply_bind, Act.apply_map]
    rcases (r.step false p index n).apply s with ⟨e | ⟨p', fragment⟩, s'⟩
    · rfl
    · simp only [Except.map]
      rcases (r.steps false p' (index + 1) nodes).apply s' with ⟨e | ⟨p'', fragments⟩, s''⟩
      · rfl
      · rfl

theorem jointNodes_eq (r : Replacer α) (nodes : List (Node α)) (p : Progress α) (index : Nat) :
    r.jointNodes p index nodes = r.steps true p index nodes := by
  induction nodes generalizing p index with
  | nil => rfl
  | cons n nodes ih =>
    rw [jointNodes, steps, jointNode_eq]
    simp only [ih]

end

section

variable {α : Type} [Scalar α] (r : Replacer α)

/-- What is done for a request when all calls of its source have been gone through. -/
def conclude (q : Request α) (p : Progress α) (fragments : List (Fragment α)) :
    Except Failure (Trace α) := do
  let outputs ← q.source.outputs.mapM p.symbolFor
  if q.gradient then
    let inputs ← q.source.inputs.mapM p.symbolFor
    let (gradients, tracer, _) ←
      (Backward.build outputs inputs fragments).outcome (p.tracer, .empty)
    tracer.finish (outputs ++ gradients)
  else p.tracer.finish outputs

/-- The program that is asked for. -/
def answer (q : Request α) : Act (Journaled (Decisions α)) (Replaced α) :=
  if q.gradient then r.joint q.id q.source else r.forward q.id q.source

/-- A request is answered in the same way in both modes. -/
theorem answer_eq (q : Request α) : r.answer q = (do
    let p ← Act.lift (Progress.start q.id q.source)
    let (p, fragments) ← r.steps q.gradient p 0 q.source.nodes
    let trace ← Act.lift (conclude q p fragments)
    Journaled.note p.report.finished
    return ⟨trace, p.report⟩) := by
  apply Act.ext
  intro s
  unfold answer conclude
  cases hgradient : q.gradient with
  | false =>
    simp only [Bool.false_eq_true, ↓reduceIte, forward, forwardNodes_eq, Act.apply_bind,
      Act.apply_lift, Act.apply_map]
    cases Progress.start q.id q.source with
    | error e => rfl
    | ok p =>
      simp only
      rcases (r.steps false p 0 q.source.nodes).apply s with ⟨e | ⟨p', fragments⟩, s'⟩
      · rfl
      · simp only [Except.map]
        cases q.source.outputs.mapM p'.symbolFor with
        | error e => rfl
        | ok outputs => rfl
  | true =>
    simp only [↓reduceIte, joint, jointNodes_eq, Act.apply_bind, Act.apply_lift]
    cases Progress.start q.id q.source with
    | error e => rfl
    | ok p =>
      simp only
      rcases (r.steps true p 0 q.source.nodes).apply s with ⟨e | ⟨p', fragments⟩, s'⟩
      · rfl
      · simp only
        cases q.source.outputs.mapM p'.symbolFor with
        | error e => rfl
        | ok outputs =>
          simp only [ok_bind]
          cases q.source.inputs.mapM p'.symbolFor with
          | error e => rfl
          | ok inputs =>
            simp only [ok_bind]
            cases (Backward.build outputs inputs fragments).outcome (p'.tracer, .empty) with
            | error e => rfl
            | ok result => rfl

end

end Replacer

end TraceSubstitution
