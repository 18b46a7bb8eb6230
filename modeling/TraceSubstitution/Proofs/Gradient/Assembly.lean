import TraceSubstitution.Proofs.Gradient.Fragments
import TraceSubstitution.Proofs.Gradient.Replay
import TraceSubstitution.Proofs.Replacement.Dispatch

/-!
# What joint programs are made of

The joint program of a source runs the forward part, in which every call leaves a
fragment behind, and then the backward part: the cotangents are bound to the
outputs, the fragments are replayed from the last to the first, and the gradients
of the inputs are read. `Trace.Assembled` says what the program consists of,
whatever the gradient transforms do.
-/

namespace TraceSubstitution

variable {α : Type}

/-- All contributions of a joint program: the cotangents of the outputs, and what the fragments
contribute, in the order in which they are replayed. -/
def Contribution.all (outputs : List Symbol) (cotangents : List SymbolId)
    (replayed : List (Replayed α)) : List Contribution :=
  List.zipWith Contribution.mk (outputs.map Symbol.id) cotangents ++
    replayed.flatMap fun x => x.1.contributions x.2

theorem Contribution.all_append (outputs : List Symbol) (cotangents : List SymbolId)
    (before after : List (Replayed α)) : Contribution.all outputs cotangents (before ++ after) =
      Contribution.all outputs cotangents before ++
        after.flatMap fun x => x.1.contributions x.2 := by
  simp [Contribution.all]

variable [Scalar α]

/-- A joint program with the given forward part, whose calls have left the given fragments behind;
`outputs` and `inputs` are what stands for the outputs and inputs of the source. -/
structure Trace.Assembled (t : Trace α) (p : Progress α) (fragments : List (Fragment α))
    (outputs inputs : List Symbol) (cotangents : List SymbolId) (replayed : List (Replayed α))
    (gradients : List SymbolId) : Prop where
  /-- There is one more input for every output of the source. -/
  supplied : t.inputs = p.tracer.inputs ++ cotangents ∧ cotangents.length = outputs.length
  /-- The outputs of the source come first, then the gradients. -/
  returned : t.outputs = outputs.map Symbol.id ++ gradients
  /-- The fragments are replayed from the last to the first. -/
  order : replayed.map Prod.fst = fragments.reverse
  /-- The backward part consists of the calls of the fragments, with sums and zeros in between. -/
  nodes : ∃ backward, t.nodes = p.tracer.nodes ++ backward ∧
    Node.Interleaved Node.Gathers (replayed.flatMap fun x => x.1.calls x.2) backward
  /-- The placeholders of a fragment stand for the gradients of the contributions so far. -/
  renamed : ∀ before x after, replayed = before ++ x :: after →
    x.1.Renamed t.nodes (Contribution.all outputs cotangents before) x.2
  /-- The gradients of all contributions to the inputs are returned. -/
  complete : List.Forall₂ (fun input g =>
    Node.Gradient t.nodes (Contribution.all outputs cotangents replayed) input.id g)
    inputs gradients

namespace Backward

variable {forward : Tracer α} {l : Ledger α} {b b' : Backward α}

theorem keeps_start (h : forward.capture = none) : Keeps forward ⟨[], [], []⟩ (forward, .empty) where
  capture := h
  inputs := (List.append_nil _).symm
  nodes := ⟨[], (List.append_nil _).symm, .nil⟩
  bound := nofun
  unbound := fun _ _ => rfl

/-- An output gets a cotangent, which is a contribution to its gradient. -/
theorem Keeps.addCotangent (h : Keeps forward l b) {output : Symbol}
    (hrun : (Backward.addCotangent output).apply b = (.ok (), b')) :
    Keeps forward { l with
      cotangents := l.cotangents ++ [b.1.nextId]
      contributions := l.contributions ++ [⟨output.id, b.1.nextId⟩] } b' := by
  have hinput : Keeps forward { l with cotangents := l.cotangents ++ [b.1.nextId] }
      ((b.1.input output.type).2, b.2) :=
    ⟨h.capture, (congrArg (· ++ [b.1.nextId]) h.inputs).trans (List.append_assoc _ _ _), h.nodes,
      h.bound, h.unbound⟩
  exact (hinput.accumulate hrun).1

theorem Keeps.addCotangents {outputs : List Symbol} (h : Keeps forward l b)
    (hrun : (outputs.forM Backward.addCotangent).apply b = (.ok (), b')) :
    ∃ cotangents, cotangents.length = outputs.length ∧ Keeps forward { l with
      cotangents := l.cotangents ++ cotangents
      contributions := l.contributions ++
        List.zipWith Contribution.mk (outputs.map Symbol.id) cotangents } b' := by
  induction outputs generalizing l b with
  | nil =>
    obtain rfl : b = b' := (Prod.mk.inj hrun).2
    exact ⟨[], rfl, by simpa using h⟩
  | cons output outputs ih =>
    obtain ⟨_, b₁, hone, hrest⟩ := Act.apply_bind_eq_ok_iff.1 hrun
    obtain ⟨cotangents, hlength, h'⟩ := ih (h.addCotangent hone) hrest
    exact ⟨b.1.nextId :: cotangents, congrArg Nat.succ hlength, by simpa using h'⟩

theorem Keeps.gradientsOrZeros {inputs gradients : List Symbol} (h : Keeps forward l b)
    (hrun : (inputs.mapM fun input => Backward.gradientOrZeros input.id (pure input)).apply b =
      (.ok gradients, b')) :
    Keeps forward l b' ∧ b.1.nodes ⊆ b'.1.nodes ∧
      List.Forall₂ (fun input g => Node.Gradient b'.1.nodes l.contributions input.id g)
        inputs (gradients.map Symbol.id) := by
  induction inputs generalizing b gradients with
  | nil =>
    obtain ⟨hgradients, rfl⟩ := Prod.mk.inj hrun
    obtain rfl := Except.ok.inj hgradients
    exact ⟨h, List.Subset.refl _, .nil⟩
  | cons input inputs ih =>
    rw [List.mapM_cons] at hrun
    obtain ⟨g, b₁, hone, hrest⟩ := Act.apply_bind_eq_ok_iff.1 hrun
    obtain ⟨gs, b₂, hall, hpure⟩ := Act.apply_bind_eq_ok_iff.1 hrest
    obtain rfl : b₂ = b' := (Prod.mk.inj hpure).2
    obtain rfl : g :: gs = gradients := Except.ok.inj (Prod.mk.inj hpure).1
    obtain ⟨h₁, hsub₁, hgradient⟩ := h.gradient (gradientOrZeros_eq_ok h.capture
      (fun x t hx => ⟨(Except.ok.inj (Prod.mk.inj hx).1 ▸ rfl), (Prod.mk.inj hx).2.symm⟩) hone)
    obtain ⟨h', hsub, hgradients⟩ := ih h₁ hall
    exact ⟨h', List.Subset.trans hsub₁ hsub, .cons (hgradient.of_subset hsub) hgradients⟩

theorem assembled_of_build {p : Progress α} (hp : p.tracer.capture = none)
    {fragments : List (Fragment α)} (hnodup : ∀ f ∈ fragments, f.placeholderIds.Nodup)
    {outputs inputs gradients : List Symbol} {t' : Tracer α} {grads : GradientBinding}
    (hbuild : (build outputs inputs fragments).apply (p.tracer, .empty) =
      (.ok gradients, (t', grads))) {t : Trace α} (hfinish : t'.finish (outputs ++ gradients) = .ok t) :
    ∃ cotangents replayed, t.Assembled p fragments outputs inputs cotangents replayed
      (gradients.map Symbol.id) := by
  obtain ⟨_, b₁, hcotangents, hrest⟩ := Act.apply_bind_eq_ok_iff.1 hbuild
  obtain ⟨_, b₂, hreplay, hgradients⟩ := Act.apply_bind_eq_ok_iff.1 hrest
  obtain ⟨cotangents, hlength, h₁⟩ := (keeps_start hp).addCotangents hcotangents
  obtain ⟨replayed, hreplayed, h₂, -, hrenamed⟩ :=
    h₁.replayAll (fun f hf => hnodup f (List.mem_reverse.1 hf)) hreplay
  obtain ⟨h₃, hsub, hcomplete⟩ := h₂.gradientsOrZeros hgradients
  obtain ⟨-, -, rfl⟩ := Tracer.finish_eq_ok_iff.1 hfinish
  exact ⟨cotangents, replayed, ⟨h₃.inputs, hlength⟩, List.map_append, hreplayed, h₃.nodes,
    fun before x after heq => (hrenamed before x after heq).of_subset hsub, hcomplete⟩

end Backward

namespace Replacer

variable {r : Replacer α} {id : TraceId} {source : Trace α} {s s' : Journaled (Decisions α)}
  {x : Replaced α}

/-- How a joint program comes about. -/
theorem joint_eq_ok (h : (r.joint id source).apply s = (.ok x, s')) :
    ∃ p₀ p fragments s₁ outputs inputs gradients t' grads,
      Progress.start id source = .ok p₀ ∧
      (r.jointNodes p₀ 0 source.nodes).apply s = (.ok (p, fragments), s₁) ∧
      source.outputs.mapM p.symbolFor = .ok outputs ∧
      source.inputs.mapM p.symbolFor = .ok inputs ∧
      (Backward.build outputs inputs fragments).apply (p.tracer, .empty) =
        (.ok gradients, (t', grads)) ∧
      t'.finish (outputs ++ gradients) = .ok x.trace := by
  unfold joint at h
  simp only [Act.apply_bind_eq_ok_iff, Act.apply_lift, Prod.mk.injEq, apply_note] at h
  obtain ⟨p₀, _, ⟨hstart, rfl⟩, ⟨p, fragments⟩, s₁, hnodes, outputs, _, ⟨houtputs, rfl⟩, inputs, _,
    ⟨hinputs, rfl⟩, ⟨gradients, t', grads⟩, _, ⟨hbuild, rfl⟩, t, _, ⟨hfinish, rfl⟩, _, _, -, hx⟩ := h
  obtain rfl : ⟨t, p.report⟩ = x := Except.ok.inj (Prod.mk.inj hx).1
  exact ⟨p₀, p, fragments, s₁, outputs, inputs, gradients, t', grads, hstart, hnodes, houtputs,
    hinputs, Act.outcome_eq_ok_iff.1 hbuild, hfinish⟩

theorem exists_joint {p₀ p : Progress α} {fragments : List (Fragment α)}
    {outputs inputs gradients : List Symbol} {b : Backward α} {trace : Trace α}
    (hstart : Progress.start id source = .ok p₀)
    (hsteps : (r.steps true p₀ 0 source.nodes).apply s = (.ok (p, fragments), s'))
    (houtputs : source.outputs.mapM p.symbolFor = .ok outputs)
    (hinputs : source.inputs.mapM p.symbolFor = .ok inputs)
    (hbuild : (Backward.build outputs inputs fragments).apply (p.tracer, .empty) = (.ok gradients, b))
    (hfinish : b.1.finish (outputs ++ gradients) = .ok trace) :
    ∃ s'', (r.joint id source).apply s = (.ok ⟨trace, p.report⟩, s'') := by
  have hconclude : conclude ⟨true, id, source⟩ p fragments = .ok trace := by
    unfold conclude
    simp only [houtputs, ok_bind, ↓reduceIte, hinputs, Act.outcome_eq_ok_iff.2 hbuild, hfinish]
  change ∃ s'', (r.answer ⟨true, id, source⟩).apply s = _
  rw [answer_eq]
  simp only [Act.apply_bind, Act.apply_lift, hstart, hsteps, hconclude]
  exact ⟨_, rfl⟩

end Replacer

end TraceSubstitution
