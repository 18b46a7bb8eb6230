import TraceSubstitution.Proofs.Replacement.Dispatch
import TraceSubstitution.Proofs.Replacement.Progress

/-!
# Answers without memory

`Replacer.plainAnswer` is the answer to a request when every call of the source is
decided anew. As long as what is remembered is right, `Replacer.answer` is the
plain answer up to the marks of what was remembered, and it leaves behind what is
right again, also when it fails.
-/

namespace TraceSubstitution

/-- The report without the marks of what was remembered. -/
def Report.plain (r : Report) : Report := r.map ({ · with cached := false })

/-- The program under way without the marks of what was remembered. -/
def Progress.plain {α : Type} (p : Progress α) : Progress α := { p with report := p.report.plain }

/-- The program without the marks of what was remembered. -/
def Replaced.plain {α : Type} (x : Replaced α) : Replaced α := { x with report := x.report.plain }

namespace Progress

variable {α β : Type}

theorem plain_withTracer (p : Progress α) (x : Act (Tracer α) β) :
    p.plain.withTracer x = (p.withTracer x).map (Prod.map id plain) := by
  unfold withTracer
  change (x.outcome p.tracer).map _ = _
  cases x.outcome p.tracer with
  | error e => rfl
  | ok result => rfl

theorem plain_bindOutputs (p : Progress α) (n : Node α) (outputs : List Symbol) :
    p.plain.bindOutputs n outputs = (p.bindOutputs n outputs).map plain := by
  unfold bindOutputs
  cases ensure (outputs.length = n.outputs.length) _ with
  | error e => rfl
  | ok _ => rfl

theorem plain_addRecord (p : Progress α) (record : DispatchRecord) :
    { p with report := p.report ++ [record] }.plain =
      { p.plain with report := p.plain.report ++ [{ record with cached := false }] } := by
  simp [plain, Report.plain]

end Progress

namespace Replacer

variable {α : Type} {r : Replacer α} {gradient : Bool} {p : Progress α} {index : Nat}
  {n : Node α} {nodes : List (Node α)} {s : Journaled (Decisions α)}

section Plain

variable (r)

/-- One call of the source, decided anew. -/
def plainStep (gradient : Bool) (p : Progress α) (index : Nat) (n : Node α) :
    Except Failure (Progress α × Fragment α) :=
  match n.op with
  | .kernel o => kernelStep gradient p o n
  | .highLevel o => do
    let operands ← p.operandsFor n
    let rule ← (r.chosenRule o ⟨o.qualifiedName, operands, n.attrs⟩ gradient).mapError .panic
    r.decidedStep gradient p o n operands ⟨index, o.qualifiedName, outcomeOf rule, false⟩ rule

/-- Calls of the source in order, each decided anew. -/
def plainSteps (gradient : Bool) : Progress α → Nat → List (Node α) →
    Except Failure (Progress α × List (Fragment α))
  | p, _, [] => .ok (p, [])
  | p, index, n :: nodes => do
    let (p, fragment) ← r.plainStep gradient p index n
    let (p, fragments) ← plainSteps gradient p (index + 1) nodes
    return (p, if fragment.isEmpty then fragments else fragment :: fragments)

/-- The answer to a request when all calls are decided anew. -/
def plainAnswer [Scalar α] (q : Request α) : Except Failure (Replaced α) := do
  let p ← Progress.start q.id q.source
  let (p, fragments) ← r.plainSteps q.gradient p 0 q.source.nodes
  let trace ← conclude q p fragments
  return ⟨trace, p.report⟩

/-- The replacer that remembers nothing. -/
def forgetful : Replacer α := { r with options := { r.options with cacheSize := 0 } }

end Plain

theorem plainSteps_forgetful (r : Replacer α) (gradient : Bool) (p : Progress α) (index : Nat)
    (nodes : List (Node α)) :
    r.forgetful.plainSteps gradient p index nodes = r.plainSteps gradient p index nodes := by
  induction nodes generalizing p index with
  | nil => rfl
  | cons n nodes ih =>
    have hstep : r.forgetful.plainStep gradient p index n = r.plainStep gradient p index n := rfl
    simp only [plainSteps, hstep, ih]

theorem plainAnswer_forgetful [Scalar α] (r : Replacer α) (q : Request α) :
    r.forgetful.plainAnswer q = r.plainAnswer q := by
  simp only [plainAnswer, plainSteps_forgetful]

theorem plain_forwardOutputs (p : Progress α) (o : Operator α) (n : Node α)
    (operands : List (Option Symbol)) (rule : Option (Rule α)) :
    forwardOutputs p.plain o n operands rule =
      (forwardOutputs p o n operands rule).map (Prod.map id Progress.plain) := by
  cases rule with
  | none => exact p.plain_withTracer _
  | some rule =>
    simp only [forwardOutputs, Progress.plain_withTracer]
    cases p.withTracer (rule.execution ⟨o.qualifiedName, operands, n.attrs⟩).run with
    | error e => rfl
    | ok result =>
      simp only [Except.map, withContext_ok, ok_bind, Prod.map_fst, id]
      cases checkTransform o rule.executor operands n.attrs result.1 with
      | error e => rfl
      | ok _ => rfl

theorem plain_jointOutputs (r : Replacer α) (p : Progress α) (o : Operator α) (n : Node α)
    (operands : List (Option Symbol)) (rule : Option (Rule α)) :
    r.jointOutputs p.plain o n operands rule =
      (r.jointOutputs p o n operands rule).map (Prod.map id (Prod.map id Progress.plain)) := by
  unfold jointOutputs
  cases r.gradientTransform o rule with
  | error e => rfl
  | ok selected =>
    simp only [ok_bind]
    have hopened : ({ p.plain with tracer := p.plain.tracer.beginBackward } : Progress α) =
        { p with tracer := p.tracer.beginBackward }.plain := rfl
    rw [hopened, Progress.plain_withTracer]
    cases ({ p with tracer := p.tracer.beginBackward } : Progress α).withTracer
        (selected.1 ⟨o.qualifiedName, operands, n.attrs⟩).run with
    | error e => rfl
    | ok result =>
      simp only [Except.map, withContext_ok, ok_bind, Prod.map_fst, Prod.map_snd, id]
      cases checkTransform o selected.2 operands n.attrs result.1 with
      | error e => rfl
      | ok _ => rfl

theorem plain_kernelStep (gradient : Bool) (p : Progress α) (o : Operator α) (n : Node α) :
    kernelStep gradient p.plain o n = (kernelStep gradient p o n).map (Prod.map .plain id) := by
  cases gradient with
  | true => rfl
  | false =>
    unfold kernelStep
    simp only [Bool.false_eq_true, ↓reduceIte]
    change (p.operandsFor n >>= _) = _
    cases p.operandsFor n with
    | error e => rfl
    | ok operands =>
      simp only [ok_bind]
      rw [Progress.plain_withTracer]
      cases p.withTracer (Tracer.call (.kernel o) operands n.attrs) with
      | error e => rfl
      | ok result =>
        simp only [Except.map, ok_bind, Prod.map_fst, Prod.map_snd, id]
        rw [Progress.plain_bindOutputs]
        cases result.2.bindOutputs n result.1 with
        | error e => rfl
        | ok p' => rfl

/-- What a call becomes depends on the rule, not on how the rule was found. -/
theorem plain_decidedStep (r : Replacer α) (gradient : Bool) (p : Progress α) (o : Operator α)
    (n : Node α) (operands : List (Option Symbol)) (record : DispatchRecord)
    (rule : Option (Rule α)) :
    r.decidedStep gradient p.plain o n operands { record with cached := false } rule =
      (r.decidedStep gradient p o n operands record rule).map (Prod.map .plain id) := by
  have hreplacement : r.replacement gradient p.plain o n operands rule =
      (r.replacement gradient p o n operands rule).map
        (Prod.map id (Prod.map id Progress.plain)) := by
    unfold replacement
    cases gradient with
    | true => exact r.plain_jointOutputs p o n operands rule
    | false =>
      simp only [Bool.false_eq_true, ↓reduceIte]
      rw [plain_forwardOutputs]
      cases forwardOutputs p o n operands rule with
      | error e => rfl
      | ok result => rfl
  unfold decidedStep
  rw [hreplacement]
  cases r.replacement gradient p o n operands rule with
  | error e => rfl
  | ok result =>
    simp only [Except.map, ok_bind, Prod.map_fst, Prod.map_snd, id]
    rw [← Progress.plain_addRecord, Progress.plain_bindOutputs]
    cases Progress.bindOutputs { result.2.2 with report := result.2.2.report ++ [record] } n
        result.1 with
    | error e => rfl
    | ok p' => rfl

section Run

variable {ops : Set (Operator α)}

/-- What a call does when what is remembered is right. -/
theorem apply_step_of_right (hs : s.state.Right r ops) {o : Operator α} (ho : o ∈ ops)
    (hop : n.op = .highLevel o) {operands : List (Option Symbol)}
    (hoperands : p.operandsFor n = .ok operands) (gradient : Bool) (index : Nat) : ∃ journal,
      (r.step gradient p index n).apply s =
        match r.chosenRule o ⟨o.qualifiedName, operands, n.attrs⟩ gradient with
        | .ok rule => (r.decidedStep gradient p o n operands ⟨index, o.qualifiedName,
            outcomeOf rule, (s.state.find? (.ofCall o.id gradient
              ⟨o.qualifiedName, operands, n.attrs⟩)).isSome⟩ rule,
            ⟨s.state.remember (.ofCall o.id gradient ⟨o.qualifiedName, operands, n.attrs⟩) rule,
              journal⟩)
        | .error e => (.error (.panic e), ⟨s.state, journal⟩) := by
  have hargs : (⟨o.qualifiedName, operands, n.attrs⟩ : Operands Symbol).op = o.qualifiedName := rfl
  obtain ⟨journal, hdispatch⟩ := apply_dispatch hs ho hargs index gradient
  refine ⟨journal, ?_⟩
  rw [apply_step_highLevel hop hoperands, hdispatch]
  cases r.chosenRule o ⟨o.qualifiedName, operands, n.attrs⟩ gradient with
  | error e => rfl
  | ok rule => rfl

theorem plain_step (hs : s.state.Right r ops) (hn : n.op.operator ∈ ops) (gradient : Bool)
    (p : Progress α) (index : Nat) :
    ((r.step gradient p index n).apply s).1.map (Prod.map .plain id) =
      r.plainStep gradient p.plain index n := by
  unfold plainStep
  cases hop : n.op with
  | kernel o =>
    rw [apply_step_kernel hop]
    exact (plain_kernelStep gradient p o n).symm
  | highLevel o =>
    have ho : o ∈ ops := by rwa [hop] at hn
    change _ = (p.operandsFor n >>= _)
    cases hoperands : p.operandsFor n with
    | error e =>
      rw [apply_step_of_operandsFor_error hop hoperands]
      rfl
    | ok operands =>
      obtain ⟨journal, hstep⟩ := apply_step_of_right hs ho hop hoperands gradient index
      rw [hstep, ok_bind]
      cases r.chosenRule o ⟨o.qualifiedName, operands, n.attrs⟩ gradient with
      | error e => rfl
      | ok rule => exact (r.plain_decidedStep gradient p o n operands _ rule).symm

theorem right_step (hr : r.TypeDirected) (hids : Set.InjOn Operator.id ops)
    (hs : s.state.Right r ops) (hn : n.op.operator ∈ ops) (gradient : Bool) (p : Progress α)
    (index : Nat) :
    ((r.step gradient p index n).apply s).2.state.Right r ops := by
  cases hop : n.op with
  | kernel o =>
    rw [apply_step_kernel hop]
    exact hs
  | highLevel o =>
    have ho : o ∈ ops := by rwa [hop] at hn
    cases hoperands : p.operandsFor n with
    | error e =>
      rw [apply_step_of_operandsFor_error hop hoperands]
      exact hs
    | ok operands =>
      obtain ⟨journal, hstep⟩ := apply_step_of_right hs ho hop hoperands gradient index
      rw [hstep]
      cases hrule : r.chosenRule o ⟨o.qualifiedName, operands, n.attrs⟩ gradient with
      | error e => exact hs
      | ok rule => exact hs.remember hr hids ho rfl hrule

/-- Going through the calls of a source gives what deciding each of them anew gives, and what is
remembered afterwards is right again. -/
theorem plain_steps (hr : r.TypeDirected) (hids : Set.InjOn Operator.id ops)
    (hs : s.state.Right r ops) (hnodes : ∀ n ∈ nodes, n.op.operator ∈ ops) (gradient : Bool)
    (p : Progress α) (index : Nat) :
    ((r.steps gradient p index nodes).apply s).1.map (Prod.map .plain id) =
        r.plainSteps gradient p.plain index nodes ∧
      ((r.steps gradient p index nodes).apply s).2.state.Right r ops := by
  induction nodes generalizing p index s with
  | nil => exact ⟨rfl, hs⟩
  | cons n nodes ih =>
    obtain ⟨hn, hnodes⟩ := List.forall_mem_cons.1 hnodes
    have hplain := plain_step hs hn gradient p index
    have hright := right_step hr hids hs hn gradient p index
    rw [plainSteps, ← hplain, apply_steps_cons]
    rcases hstep : (r.step gradient p index n).apply s with ⟨e | ⟨p', fragment⟩, s'⟩
    · rw [hstep] at hright
      exact ⟨rfl, hright⟩
    · rw [hstep] at hright
      obtain ⟨hrest, hright'⟩ := ih hright hnodes p' (index + 1)
      refine ⟨?_, hright'⟩
      simp only [Except.map, ok_bind, Prod.map_fst, Prod.map_snd, id]
      rw [← hrest]
      rcases ((r.steps gradient p' (index + 1) nodes).apply s').1 with e | ⟨p'', fragments⟩
      · rfl
      · rfl

theorem report_start {id : TraceId} {source : Trace α} {p : Progress α}
    (h : Progress.start id source = .ok p) : p.report = [] := by
  obtain ⟨types, -, rfl⟩ := Progress.start_eq_ok_iff.1 h
  rfl

/-- An answer is the plain answer up to the marks of what was remembered, and what is remembered
afterwards is right again. -/
theorem plain_answer [Scalar α] (hr : r.TypeDirected) (hids : Set.InjOn Operator.id ops)
    (hs : s.state.Right r ops) {q : Request α} (hq : ∀ n ∈ q.source.nodes, n.op.operator ∈ ops) :
    ((r.answer q).apply s).1.map Replaced.plain = r.plainAnswer q ∧
      ((r.answer q).apply s).2.state.Right r ops := by
  unfold plainAnswer
  rw [answer_eq]
  simp only [Act.apply_bind, Act.apply_lift]
  cases hstart : Progress.start q.id q.source with
  | error e => exact ⟨rfl, hs⟩
  | ok p =>
    obtain ⟨hplain, hright⟩ := plain_steps hr hids hs hq q.gradient p 0
    have hp : p.plain = p := by
      obtain ⟨tracer, symbols, report⟩ := p
      obtain rfl : report = [] := report_start hstart
      rfl
    rw [hp] at hplain
    simp only [ok_bind]
    rw [← hplain]
    rcases hsteps : (r.steps q.gradient p 0 q.source.nodes).apply s with
      ⟨e | ⟨p', fragments⟩, s'⟩
    · rw [hsteps] at hright
      exact ⟨rfl, hright⟩
    · rw [hsteps] at hright
      simp only [Except.map, ok_bind, Prod.map_fst, Prod.map_snd, id]
      have hconclude : conclude q p'.plain fragments = conclude q p' fragments := rfl
      rw [hconclude]
      cases conclude q p' fragments with
      | error e => exact ⟨rfl, hright⟩
      | ok trace => exact ⟨rfl, hright⟩

end Run

end Replacer

end TraceSubstitution
