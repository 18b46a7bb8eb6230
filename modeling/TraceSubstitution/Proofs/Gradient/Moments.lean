import TraceSubstitution.Proofs.Gradient.Build
import TraceSubstitution.Proofs.Trace.Calling

/-!
# The backward part step by step

The backward part of a program is built in small steps: the outputs get cotangents,
the fragments are replayed one part after the other, and gradients that are missing
are filled with zeros. `Moment.perform` is one such step and `Backward.outcome_build`
says that the steps in order are `Backward.build`.

At every moment each gradient that is bound has the type of the symbol it belongs to,
and no step fails whose symbols belong to the program and have the types that they must
have (`Moment.Typed.perform`). So the backward part can be built to its end, and stopped
anywhere on the way (`Moment.Typed.run`).
-/

namespace TraceSubstitution

namespace Act

variable {σ β γ : Type}

theorem outcome_bind (x : Act σ β) (f : β → Act σ γ) (s : σ) :
    (x >>= f).outcome s = x.outcome s >>= fun y => (f y.1).outcome y.2 := by
  unfold outcome
  rw [apply_bind]
  rcases x.apply s with ⟨e | b, s'⟩
  · rfl
  · rfl

@[simp] theorem outcome_pure (b : β) (s : σ) : (pure b : Act σ β).outcome s = .ok (b, s) := rfl

end Act

/-- One step of building the backward part of a program. -/
inductive BuildStep (α : Type) where
  /-- An output gets a cotangent. -/
  | cotangent (output : Symbol)
  /-- A placeholder is resolved to the gradient of a symbol. -/
  | resolve (placeholder primal : SymbolId)
  /-- One part of a fragment is replayed. -/
  | replay (s : BackwardStep α)
  /-- A fragment is done, and what its placeholders stand for is forgotten. -/
  | close
  /-- The gradient of an input is taken, or filled with zeros. -/
  | fill (input : Symbol)

/-- The backward part between two steps. -/
structure Moment (α : Type) where
  /-- The program and the gradients that are bound. -/
  backward : Backward α
  /-- What the placeholders of the current fragment stand for. -/
  renamed : SymbolMap SymbolId
  /-- The gradients of the inputs that have been taken. -/
  gradients : List Symbol

/-- The steps of replaying a fragment. -/
def Fragment.buildSteps {α : Type} (f : Fragment α) : List (BuildStep α) :=
  f.placeholders.map (fun x => .resolve x.1 x.2) ++ f.steps.map .replay ++ [.close]

/-- The steps of building the backward part of a program from its fragments. -/
def Backward.steps {α : Type} (outputs inputs : List Symbol) (fragments : List (Fragment α)) :
    List (BuildStep α) :=
  outputs.map .cotangent ++ fragments.reverse.flatMap Fragment.buildSteps ++ inputs.map .fill

/-- The moment before the first step. -/
def Backward.atStart {α : Type} (t : Tracer α) : Moment α := ⟨(t, .empty), .empty, []⟩

variable {α : Type} [Scalar α]

namespace Moment

/-- Makes one step. -/
def perform (m : Moment α) : BuildStep α → Except Failure (Moment α)
  | .cotangent output =>
    ((Backward.addCotangent output).outcome m.backward).map fun x => { m with backward := x.2 }
  | .resolve placeholder primal =>
    ((Backward.resolveOne m.renamed (placeholder, primal)).outcome m.backward).map fun x =>
      { m with backward := x.2, renamed := x.1 }
  | .replay s =>
    ((Backward.replayStep m.renamed s).outcome m.backward).map fun x => { m with backward := x.2 }
  | .close => .ok { m with renamed := .empty }
  | .fill input =>
    ((Backward.gradientOrZeros input.id (pure input)).outcome m.backward).map fun x =>
      { m with backward := x.2, gradients := m.gradients ++ [x.1] }

/-- Makes steps in order. -/
def run (m : Moment α) (steps : List (BuildStep α)) : Except Failure (Moment α) :=
  steps.foldlM perform m

@[simp] theorem run_nil (m : Moment α) : m.run [] = .ok m := rfl

theorem run_cons (m : Moment α) (step : BuildStep α) (steps : List (BuildStep α)) :
    m.run (step :: steps) = m.perform step >>= fun m' => m'.run steps := rfl

theorem run_append (m : Moment α) (steps more : List (BuildStep α)) :
    m.run (steps ++ more) = m.run steps >>= fun m' => m'.run more := List.foldlM_append ..

theorem run_cotangents (m : Moment α) (outputs : List Symbol) :
    m.run (outputs.map .cotangent) =
      ((outputs.forM Backward.addCotangent).outcome m.backward).map fun x =>
        { m with backward := x.2 } := by
  induction outputs generalizing m with
  | nil => rfl
  | cons output outputs ih =>
    change _ = Except.map _ ((Backward.addCotangent output >>= fun _ =>
      outputs.forM Backward.addCotangent).outcome m.backward)
    rw [List.map_cons, run_cons, Act.outcome_bind]
    simp only [perform]
    rcases (Backward.addCotangent output).outcome m.backward with e | ⟨_, b⟩
    · rfl
    · exact ih { m with backward := b }

theorem run_resolve (m : Moment α) (placeholders : List (SymbolId × SymbolId)) :
    m.run (placeholders.map fun x => .resolve x.1 x.2) =
      ((placeholders.foldlM Backward.resolveOne m.renamed).outcome m.backward).map fun x =>
        { m with backward := x.2, renamed := x.1 } := by
  induction placeholders generalizing m with
  | nil => rfl
  | cons x placeholders ih =>
    rw [List.map_cons, run_cons, List.foldlM_cons, Act.outcome_bind]
    simp only [perform]
    rcases (Backward.resolveOne m.renamed x).outcome m.backward with e | ⟨renamed, b⟩
    · rfl
    · exact ih { m with backward := b, renamed := renamed }

theorem run_replay (m : Moment α) (steps : List (BackwardStep α)) :
    m.run (steps.map .replay) =
      ((steps.forM (Backward.replayStep m.renamed)).outcome m.backward).map fun x =>
        { m with backward := x.2 } := by
  induction steps generalizing m with
  | nil => rfl
  | cons s steps ih =>
    change _ = Except.map _ ((Backward.replayStep m.renamed s >>= fun _ =>
      steps.forM (Backward.replayStep m.renamed)).outcome m.backward)
    rw [List.map_cons, run_cons, Act.outcome_bind]
    simp only [perform]
    rcases (Backward.replayStep m.renamed s).outcome m.backward with e | ⟨_, b⟩
    · rfl
    · exact ih { m with backward := b }

theorem run_fill (m : Moment α) (inputs : List Symbol) :
    m.run (inputs.map .fill) =
      ((inputs.mapM fun input => Backward.gradientOrZeros input.id (pure input)).outcome
        m.backward).map fun x => { m with backward := x.2, gradients := m.gradients ++ x.1 } := by
  induction inputs generalizing m with
  | nil =>
    rw [List.mapM_nil, Act.outcome_pure]
    simp [Except.map]
  | cons input inputs ih =>
    rw [List.map_cons, run_cons, List.mapM_cons, Act.outcome_bind]
    simp only [perform]
    rcases (Backward.gradientOrZeros input.id (pure input)).outcome m.backward with e | ⟨g, b⟩
    · rfl
    · change run _ _ = _
      rw [ih]
      simp only [ok_bind, Act.outcome_bind]
      generalize Act.outcome (List.mapM _ inputs) b = rest
      cases rest with
      | error e => rfl
      | ok rest =>
        simp only [Except.map, ok_bind, Act.outcome_pure, List.append_assoc, List.singleton_append]

/-- The steps of a fragment replay it. -/
theorem run_fragment {m : Moment α} (hm : m.renamed = .empty) (f : Fragment α) :
    m.run f.buildSteps = ((Backward.replay f).outcome m.backward).map fun x =>
      { m with backward := x.2 } := by
  unfold Fragment.buildSteps Backward.replay
  rw [run_append, run_append, run_resolve, Act.outcome_bind, Backward.resolve_eq, hm]
  rcases (f.placeholders.foldlM Backward.resolveOne .empty).outcome m.backward with
    e | ⟨renamed, b⟩
  · rfl
  · simp only [Except.map, ok_bind, run_replay]
    rcases (f.steps.forM (Backward.replayStep renamed)).outcome b with e | ⟨_, b'⟩
    · rfl
    · exact congrArg Except.ok (by rw [← hm])

theorem run_fragments {m : Moment α} (hm : m.renamed = .empty) (fragments : List (Fragment α)) :
    m.run (fragments.flatMap Fragment.buildSteps) =
      ((fragments.forM Backward.replay).outcome m.backward).map fun x =>
        { m with backward := x.2 } := by
  induction fragments generalizing m with
  | nil => rfl
  | cons f fragments ih =>
    change _ = Except.map _ ((Backward.replay f >>= fun _ =>
      fragments.forM Backward.replay).outcome m.backward)
    rw [List.flatMap_cons, run_append, Act.outcome_bind, run_fragment hm]
    rcases (Backward.replay f).outcome m.backward with e | ⟨_, b⟩
    · rfl
    · exact ih hm

end Moment

/-- The steps in order build the backward part. -/
theorem Backward.outcome_build (t : Tracer α) (outputs inputs : List Symbol)
    (fragments : List (Fragment α)) :
    (build outputs inputs fragments).outcome (t, .empty) =
      ((Backward.atStart t).run (steps outputs inputs fragments)).map fun m =>
        (m.gradients, m.backward) := by
  unfold build steps
  rw [Moment.run_append, Moment.run_append, Moment.run_cotangents, Act.outcome_bind]
  change _ = Except.map _ (((((outputs.forM addCotangent).outcome (t, .empty)).map _) >>= _) >>= _)
  rcases (outputs.forM addCotangent).outcome (t, .empty) with e | ⟨_, b⟩
  · rfl
  · simp only [Except.map, ok_bind]
    rw [Moment.run_fragments rfl, Act.outcome_bind]
    rcases (fragments.reverse.forM replay).outcome b with e | ⟨_, b'⟩
    · rfl
    · simp only [Except.map, ok_bind]
      rw [Moment.run_fill]
      generalize Act.outcome (List.mapM _ inputs) b' = rest
      cases rest with
      | error e => rfl
      | ok rest => rfl

namespace BuildStep

/-- The symbols of the step belong to the program and have the types that they must have. -/
def Fits (t : Tracer α) : BuildStep α → Prop
  | cotangent output => t.owns output = true
  | resolve placeholder primal => Alike t.symbols placeholder primal
  | replay (.node _) => True
  | replay (.accumulate target contribution) => Alike t.symbols target contribution
  | close => True
  | fill input => t.owns input = true

/-- The types of the inputs that the step declares. -/
def inputTypes : BuildStep α → List TensorType
  | cotangent output => [output.type]
  | _ => []

/-- The types of the gradients that the step takes. -/
def gradientTypes : BuildStep α → List TensorType
  | fill input => [input.type]
  | _ => []

omit [Scalar α] in
theorem Fits.mono {t t' : Tracer α} {step : BuildStep α} (h : step.Fits t) (hid : t'.id = t.id)
    (hle : t.symbols <+: t'.symbols) : step.Fits t' := by
  cases step with
  | cotangent output => exact Tracer.owns_of_le h hle hid
  | resolve placeholder primal => exact Alike.mono h hle
  | replay s =>
    cases s with
    | node n => trivial
    | accumulate target contribution => exact Alike.mono h hle
  | close => trivial
  | fill input => exact Tracer.owns_of_le h hle hid

end BuildStep

namespace Backward

variable {b b' : Backward α}

/-- A contribution declares no input. -/
theorem inputs_of_accumulate (hb : b.1.capture = none) {primal : SymbolId} {x : Symbol}
    (hrun : (GradientBinding.accumulate primal x).apply b = (.ok (), b')) :
    b'.1.inputs = b.1.inputs ∧ b.1.symbols <+: b'.1.symbols := by
  rcases GradientBinding.accumulate_eq_ok hb hrun with ⟨-, rfl⟩ | ⟨existing, total, -, -, rfl⟩
  · exact ⟨rfl, List.prefix_rfl⟩
  · exact ⟨rfl, List.prefix_append _ _⟩

/-- A cotangent is one more input, of the type of the output. -/
theorem inputs_of_addCotangent (hb : b.1.capture = none) {output : Symbol}
    (hrun : (addCotangent output).apply b = (.ok (), b')) :
    b'.1.inputs = b.1.inputs ++ [b.1.nextId] ∧ b.1.symbols ++ [output.type] <+: b'.1.symbols := by
  have hinput : ((b.1.input output.type).2, b.2).1.capture = none := hb
  exact inputs_of_accumulate hinput hrun

theorem inputs_of_resolveOne (hb : b.1.capture = none) {m m' : SymbolMap SymbolId}
    {x : SymbolId × SymbolId} (hrun : (resolveOne m x).apply b = (.ok m', b')) :
    b'.1.inputs = b.1.inputs := by
  obtain ⟨g, -, ⟨-, rfl⟩ | ⟨-, -, rfl⟩⟩ := resolveOne_eq_ok hb hrun
  · rfl
  · rfl

theorem inputs_of_replayStep (hb : b.1.capture = none) {m : SymbolMap SymbolId}
    {s : BackwardStep α} (hrun : (replayStep m s).apply b = (.ok (), b')) :
    b'.1.inputs = b.1.inputs := by
  rcases replayStep_eq_ok hrun with ⟨n, -, rfl⟩ | ⟨target, contribution, x, -, -, haccumulate⟩
  · rfl
  · exact (inputs_of_accumulate hb haccumulate).1

theorem inputs_of_gradientOrZeros (hb : b.1.capture = none) {input g : Symbol}
    (hrun : (gradientOrZeros input.id (pure input)).apply b = (.ok g, b')) :
    b'.1.inputs = b.1.inputs := by
  have hpure : ∀ x t, (pure input : Act (Tracer α) Symbol).apply b.1 = (.ok x, t) →
      x.id = input.id ∧ t = b.1 := fun x t hx =>
    ⟨Except.ok.inj (Prod.mk.inj hx).1 ▸ rfl, (Prod.mk.inj hx).2.symm⟩
  rcases gradientOrZeros_eq_ok hb hpure hrun with ⟨-, rfl⟩ | ⟨-, -, rfl⟩
  · rfl
  · rfl

end Backward

namespace Moment

variable {m : Moment α} {inputs gradients : List TensorType}

/-- Every gradient that is bound belongs to the program and has the type of its symbol. -/
def GradientsTyped (m : Moment α) : Prop :=
  ∀ id g, m.backward.2.get? id = some g →
    m.backward.1.owns g = true ∧ m.backward.1.symbols[id.index]? = some g.type

/-- The gradients that are bound, the placeholders that are resolved, the inputs and the gradients
that have been taken have the types that they must have. -/
structure Typed (inputs gradients : List TensorType) (m : Moment α) : Prop where
  backward : m.backward.Typed fun _ => True
  renamed : ∃ ids, Backward.Renames (fun _ => True) m.backward.1.symbols ids m.renamed
  inputs : m.backward.1.inputs.map (fun id => m.backward.1.symbols[id.index]?) = inputs.map some
  gradients : m.gradients.map Symbol.type = gradients ∧
    ∀ g ∈ m.gradients, m.backward.1.owns g = true

omit [Scalar α] in
theorem Typed.gradientsTyped (h : m.Typed inputs gradients) : m.GradientsTyped := fun id g hg =>
  ⟨(h.backward.bound id g hg).1, (h.backward.bound id g hg).2.1⟩

/-- A program that has grown without a further input has inputs of the same types. -/
theorem Typed.grow (h : m.Typed inputs gradients) {b : Backward α} {calls : List (Node α)}
    (hb : b.Typed fun _ => True) (hadds : Backward.Adds (fun _ => True) calls m.backward b)
    (hinputs : b.1.inputs = m.backward.1.inputs) :
    Typed inputs gradients { m with backward := b } := by
  obtain ⟨ids, hrenamed⟩ := h.renamed
  refine ⟨hb, ⟨ids, hrenamed.mono hadds.symbols⟩, ?_, h.gradients.1,
    fun g hg => hadds.owns (h.gradients.2 g hg)⟩
  change b.1.inputs.map _ = _
  rw [hinputs]
  exact Node.map_getElem?_of_le hadds.symbols h.inputs

/-- A step that fits succeeds, and everything keeps the types that it must have. -/
theorem Typed.perform (h : m.Typed inputs gradients) {step : BuildStep α}
    (hfits : step.Fits m.backward.1) : ∃ m', m.perform step = .ok m' ∧
      m'.Typed (inputs ++ step.inputTypes) (gradients ++ step.gradientTypes) ∧
      m'.backward.1.id = m.backward.1.id ∧
      m.backward.1.symbols <+: m'.backward.1.symbols := by
  obtain ⟨ids, hrenamed⟩ := h.renamed
  have hcapture := h.backward.capture
  cases step with
  | cotangent output =>
    obtain ⟨b, hrun, hb, hadds⟩ := h.backward.addCotangent hfits
    obtain ⟨hinputs, hle⟩ := Backward.inputs_of_addCotangent hcapture hrun
    refine ⟨{ m with backward := b }, ?_, ⟨hb, ⟨ids, hrenamed.mono hadds.symbols⟩, ?_, ?_,
      fun g hg => hadds.owns (h.gradients.2 g hg)⟩, hadds.id, hadds.symbols⟩
    · simp only [Moment.perform, Act.outcome_eq_ok_iff.2 hrun, Except.map]
    · have hcotangent : b.1.symbols[m.backward.1.nextId.index]? = some output.type := by
        refine Node.getElem?_of_le hle ?_
        simp [Tracer.nextId]
      change b.1.inputs.map _ = _
      rw [hinputs, List.map_append, List.map_append, List.map_singleton, hcotangent,
        Node.map_getElem?_of_le hadds.symbols h.inputs]
      rfl
    · exact h.gradients.1.trans (List.append_nil gradients).symm
  | resolve placeholder primal =>
    obtain ⟨renamed, b, hrun, hb, hadds, hrenamed'⟩ :=
      h.backward.resolveOne (x := (placeholder, primal)) hrenamed hfits trivial
    refine ⟨{ m with backward := b, renamed := renamed }, ?_, ?_, hadds.id, hadds.symbols⟩
    · simp only [Moment.perform, Act.outcome_eq_ok_iff.2 hrun, Except.map]
    · have hgrown := h.grow hb hadds (Backward.inputs_of_resolveOne hcapture hrun)
      simp only [BuildStep.inputTypes, BuildStep.gradientTypes, List.append_nil]
      exact ⟨hb, ⟨_, hrenamed'⟩, hgrown.inputs, hgrown.gradients⟩
  | replay s =>
    have hs : ∀ target contribution, s = .accumulate target contribution →
        Alike m.backward.1.symbols target contribution ∧ (contribution ∈ ids ∨ True) := by
      rintro target contribution rfl
      exact ⟨hfits, .inr trivial⟩
    obtain ⟨b, hrun, hb, hadds⟩ := h.backward.replayStep hrenamed hs
    refine ⟨{ m with backward := b }, ?_, ?_, hadds.id, hadds.symbols⟩
    · simp only [Moment.perform, Act.outcome_eq_ok_iff.2 hrun, Except.map]
    · simp only [BuildStep.inputTypes, BuildStep.gradientTypes, List.append_nil]
      exact h.grow hb hadds (Backward.inputs_of_replayStep hcapture hrun)
  | close =>
    simp only [BuildStep.inputTypes, BuildStep.gradientTypes, List.append_nil]
    have hrenamed := Backward.renames_empty (fun _ => True) m.backward.1.symbols
    exact ⟨_, rfl, ⟨h.backward, ⟨[], hrenamed⟩, h.inputs, h.gradients⟩, rfl, List.prefix_rfl⟩
  | fill input =>
    obtain ⟨g, b, hrun, hb, hadds, hg, htype, -⟩ :=
      h.backward.gradientOrZeros hfits trivial (Act.apply_pure input m.backward.1)
    have hgrown := h.grow hb hadds (Backward.inputs_of_gradientOrZeros hcapture hrun)
    refine ⟨{ m with backward := b, gradients := m.gradients ++ [g] }, ?_, ?_, hadds.id,
      hadds.symbols⟩
    · simp only [Moment.perform, Act.outcome_eq_ok_iff.2 hrun, Except.map]
    · refine ⟨hb, hgrown.renamed, ?_, ?_, ?_⟩
      · exact hgrown.inputs.trans (congrArg _ (List.append_nil inputs).symm)
      · change (m.gradients ++ [g]).map Symbol.type = gradients ++ [input.type]
        rw [List.map_append, h.gradients.1, List.map_singleton, htype]
      · intro x hx
        rcases List.mem_append.1 hx with hx | hx
        · exact hgrown.gradients.2 x hx
        · exact List.mem_singleton.1 hx ▸ hg

/-- Steps that fit succeed one after the other. -/
theorem Typed.run {steps : List (BuildStep α)} (h : m.Typed inputs gradients)
    (hfits : ∀ step ∈ steps, step.Fits m.backward.1) : ∃ m', m.run steps = .ok m' ∧
      m'.Typed (inputs ++ steps.flatMap BuildStep.inputTypes)
        (gradients ++ steps.flatMap BuildStep.gradientTypes) ∧
      m'.backward.1.id = m.backward.1.id ∧
      m.backward.1.symbols <+: m'.backward.1.symbols := by
  induction steps generalizing m inputs gradients with
  | nil =>
    refine ⟨m, rfl, ?_, rfl, List.prefix_rfl⟩
    simpa using h
  | cons step steps ih =>
    obtain ⟨hstep, hfits⟩ := List.forall_mem_cons.1 hfits
    obtain ⟨m₁, hone, h₁, hid, hle⟩ := h.perform hstep
    obtain ⟨m', hrest, h', hid', hle'⟩ := ih h₁ fun x hx => (hfits x hx).mono hid hle
    refine ⟨m', ?_, ?_, hid'.trans hid, hle.trans hle'⟩
    · rw [run_cons, hone, ok_bind, hrest]
    · rwa [List.append_assoc, List.append_assoc] at h'

end Moment

end TraceSubstitution
