import TraceSubstitution.Proofs.Gradient.Settled

/-!
# Gradients of joint programs

If the gradient transforms that are selected are disciplined, a joint program is
closed, and no fragment contributes to a gradient that it or a fragment replayed
before it asks for. `Trace.Joins` says what the program consists of then, and
`Replacer.joint_gradients` that no contribution is lost, made twice, or made too
late.
-/

namespace TraceSubstitution

variable {α : Type} [Scalar α]

/-- A joint program with the given forward part, whose calls have left the given fragments behind;
`outputs` and `inputs` are what stands for the outputs and inputs of the source. -/
structure Trace.Joins (t : Trace α) (p : Progress α) (fragments : List (Fragment α))
    (outputs inputs : List Symbol) (cotangents : List SymbolId) (replayed : List (Replayed α))
    (gradients : List SymbolId) : Prop where
  /-- Calls and outputs use inputs and outputs of earlier calls. -/
  closed : t.Closed
  /-- Every symbol is an input or an output of a call once. -/
  once : (t.inputs ++ t.nodes.flatMap (·.outputs)).Nodup
  /-- There are no placeholders left. -/
  absent : ∀ f ∈ fragments, ∀ id ∈ f.placeholderIds, id ∉ t.inputs ∧ id ∉ t.outputs ∧
    ∀ n ∈ t.nodes, some id ∉ n.inputs ∧ id ∉ n.outputs
  /-- There is one more input for every output of the source. -/
  supplied : t.inputs = p.tracer.inputs ++ cotangents ∧ cotangents.length = outputs.length
  /-- The outputs of the source come first, then the gradients. -/
  returned : t.outputs = outputs.map Symbol.id ++ gradients
  /-- The fragments are replayed from the last to the first. -/
  order : replayed.map Prod.fst = fragments.reverse
  /-- The backward part consists of the calls of the fragments, with sums and zeros in between. -/
  nodes : ∃ backward, t.nodes = p.tracer.nodes ++ backward ∧
    Node.Interleaved Node.Gathers (replayed.flatMap fun x => x.1.calls x.2) backward
  /-- The gradients of all contributions take the places of the placeholders. -/
  renamed : ∀ x ∈ replayed,
    x.1.Renamed t.nodes (Contribution.all outputs cotangents replayed) x.2
  /-- The gradients of all contributions to the inputs are returned. -/
  complete : List.Forall₂ (fun input g =>
    Node.Gradient t.nodes (Contribution.all outputs cotangents replayed) input.id g)
    inputs gradients

omit [Scalar α] in
/-- What the calls of a closed program read is known in the end. -/
theorem Node.Closed.mem_known {n : Node α} {id : SymbolId} :
    ∀ {known : List SymbolId} {nodes : List (Node α)}, Closed known nodes → n ∈ nodes →
      some id ∈ n.inputs → id ∈ known ++ nodes.flatMap (·.outputs)
  | known, m :: nodes, h, hn, hid => by
    obtain ⟨hm, hnodes⟩ := closed_cons.1 h
    rcases List.mem_cons.1 hn with rfl | hn
    · exact List.mem_append_left _ (hm id hid)
    · rw [List.flatMap_cons, ← List.append_assoc]
      exact hnodes.mem_known hn hid

/-- Contributions that come later do not matter to fragments that are in order. -/
theorem Trace.Assembled.renamed_all {t : Trace α} {p : Progress α} {fragments : List (Fragment α)}
    {outputs inputs : List Symbol} {cotangents : List SymbolId} {replayed : List (Replayed α)}
    {gradients : List SymbolId}
    (h : t.Assembled p fragments outputs inputs cotangents replayed gradients) {first : Nat}
    (horder : Fragment.InOrder first fragments) : ∀ x ∈ replayed,
      x.1.Renamed t.nodes (Contribution.all outputs cotangents replayed) x.2 := by
  intro x hx
  obtain ⟨before, after, rfl⟩ := List.append_of_mem hx
  rw [Contribution.all_append]
  refine (h.renamed before x after rfl).mono (List.Subset.refl _) fun id hid hmem => ?_
  -- Fragments that are replayed later were left behind earlier: they contribute to older symbols.
  have hordered := List.pairwise_reverse.2 horder.ordered
  rw [← h.order, List.map_append, List.map_cons] at hordered
  have hprecedes : ∀ y ∈ x :: after, y.1.Precedes x.1 := by
    refine List.forall_mem_cons.2 ⟨horder.self x.1 ?_, fun y hy => ?_⟩
    · rw [← List.mem_reverse, ← h.order]
      exact List.mem_map_of_mem hx
    · exact (List.pairwise_cons.1 (List.pairwise_append.1 hordered).2.1).1 y.1
        (List.mem_map_of_mem hy)
  rw [List.map_flatMap] at hmem
  obtain ⟨y, hy, htarget⟩ := List.mem_flatMap.1 hmem
  rw [Fragment.map_target_contributions] at htarget
  exact hprecedes y hy id htarget hid

/-- The backward part that is built from fragments that fit together. -/
theorem Backward.joins_of_build {p₀ p : Progress α} {fragments : List (Fragment α)}
    (h : Replacer.LeaveAll p₀ p [] fragments) {first : Nat}
    (horder : Fragment.InOrder first fragments) {outputs inputs gradients : List Symbol}
    (houtputs : ∀ s ∈ outputs, s.id ∈ p.tracer.known)
    (hinputs : ∀ s ∈ inputs, s.id ∈ p.tracer.known) {t' : Tracer α} {grads : GradientBinding}
    (hbuild : (build outputs inputs fragments).apply (p.tracer, .empty) =
      (.ok gradients, (t', grads))) {t : Trace α} (hfinish : t'.finish (outputs ++ gradients) = .ok t) :
    ∃ cotangents replayed, t.Joins p fragments outputs inputs cotangents replayed
      (gradients.map Symbol.id) := by
  obtain ⟨cotangents, replayed, hassembled⟩ :=
    assembled_of_build h.settled.capture h.nodup hbuild hfinish
  obtain ⟨hsettled, hreturned⟩ := settled_of_build h houtputs hinputs hbuild
  obtain ⟨-, -, rfl⟩ := Tracer.finish_eq_ok_iff.1 hfinish
  refine ⟨cotangents, replayed, ⟨⟨hsettled.closed, fun id hid => ?_⟩, ?_, fun f hf id hid => ?_,
    hassembled.supplied, hassembled.returned, hassembled.order, hassembled.nodes,
    hassembled.renamed_all horder, hassembled.complete⟩⟩
  · obtain ⟨s, hs, rfl⟩ := List.mem_map.1 hid
    exact hreturned s hs
  · exact (List.nodup_append.1 hsettled.distinct.nodup).1
  · have hnotMem : id ∉ t'.known :=
      hsettled.distinct.notMem_known (List.mem_flatMap.2 ⟨f, hf, hid⟩)
    refine ⟨fun hinput => hnotMem (List.mem_append_left _ hinput), fun houtput => ?_,
      fun n hn => ⟨fun hinput => hnotMem (hsettled.closed.mem_known hn hinput), fun houtput => ?_⟩⟩
    · obtain ⟨s, hs, rfl⟩ := List.mem_map.1 houtput
      exact hnotMem (hreturned s hs)
    · exact hnotMem (List.mem_append_right _ (List.mem_flatMap.2 ⟨n, hn, houtput⟩))

namespace Replacer

/-- The gradient transforms of addition, of attention and of the fused executor are disciplined.
If all transforms that are selected for a joint program are, it is closed, no placeholder is left
in it, and every gradient that a fragment asks for or that is returned is the sum of all
contributions to it, each made once, in a fixed order. -/
theorem joint_gradients (r : Replacer α) (id : TraceId) (source : Trace α)
    (s s' : Journaled (Decisions α)) (x : Replaced α)
    (hselected : r.SelectsDisciplined (r.decisions ⟨true, id, source⟩ s))
    (h : (r.joint id source).apply s = (.ok x, s')) :
    ((Core.addGradient : Transform α).Disciplined ∧ (Attention.gradient : Transform α).Disciplined ∧
      ∀ ops : Flash.Operators α, (Flash.gradient ops).Disciplined) ∧
    ∃ p₀ p fragments s₁ outputs inputs cotangents replayed gradients,
      Progress.start id source = .ok p₀ ∧
      (r.jointNodes p₀ 0 source.nodes).apply s = (.ok (p, fragments), s₁) ∧
      source.outputs.mapM p.symbolFor = .ok outputs ∧
      source.inputs.mapM p.symbolFor = .ok inputs ∧
      x.trace.Joins p fragments outputs inputs cotangents replayed gradients := by
  refine ⟨⟨Core.disciplined_addGradient, Attention.disciplined_gradient,
    Flash.disciplined_gradient⟩, ?_⟩
  obtain ⟨p₀, p, fragments, s₁, outputs, inputs, gradients, t', grads, hstart, hnodes, houtputs,
    hinputs, hbuild, hfinish⟩ := joint_eq_ok h
  have hsteps := hnodes
  rw [jointNodes_eq] at hsteps
  unfold decisions at hselected
  rw [hstart] at hselected
  have hsettled := Progress.settled_start hstart
  have hleave := leaveAll_of_steps hsettled hselected.timely hsteps
  obtain ⟨cotangents, replayed, hjoins⟩ := Backward.joins_of_build hleave
    (inOrder_of_steps hsettled hselected hsteps)
    (fun _ => hleave.settled.mem_of_symbolsFor houtputs)
    (fun _ => hleave.settled.mem_of_symbolsFor hinputs) hbuild hfinish
  exact ⟨p₀, p, fragments, s₁, outputs, inputs, cotangents, replayed, gradients.map Symbol.id,
    hstart, hnodes, houtputs, hinputs, hjoins⟩

/-- A replacer without rules, which remembers nothing. -/
def ofCore : Replacer Float32 := ⟨.initial, ⟨none, 0⟩⟩

/-- The joint program of `doubling`: the cotangent is added to itself. -/
def jointDoubling : Trace Float32 where
  id := ⟨1⟩
  symbols := [oneNumber, oneNumber, oneNumber, oneNumber, oneNumber]
  inputs := [⟨0⟩, ⟨3⟩]
  nodes := doubling.nodes ++ [.add ⟨3⟩ ⟨3⟩ ⟨4⟩]
  outputs := [⟨1⟩, ⟨4⟩]

/-- What stands for the input of `doubling`. -/
def inputDoubling : Symbol := ⟨⟨1⟩, ⟨0⟩, oneNumber⟩

/-- What stands for the output of `doubling`. -/
def outputDoubling : Symbol := ⟨⟨1⟩, ⟨1⟩, oneNumber⟩

/-- What the call in `doubling` leaves behind: the gradient of its output is contributed twice to
that of its input. -/
def fragmentDoubling : Fragment Float32 :=
  ⟨[(⟨2⟩, ⟨1⟩)], [.accumulate ⟨0⟩ ⟨2⟩, .accumulate ⟨0⟩ ⟨2⟩]⟩

/-- The forward part of the joint program of `doubling`. -/
def forwardDoubling : Progress Float32 where
  tracer := ⟨⟨1⟩, [oneNumber, oneNumber, oneNumber], [⟨0⟩], doubling.nodes, none⟩
  symbols := ⟨[(⟨1⟩, outputDoubling), (⟨0⟩, inputDoubling)]⟩
  report := [⟨0, "core::add", .fallback, false⟩]

theorem start_doubling : Progress.start ⟨1⟩ doubling =
    .ok ⟨((Tracer.empty ⟨1⟩).input oneNumber).2, ⟨[(⟨0⟩, inputDoubling)]⟩, []⟩ := rfl

theorem jointNodes_doubling : ∃ s, (ofCore.jointNodes ⟨((Tracer.empty ⟨1⟩).input oneNumber).2,
    ⟨[(⟨0⟩, inputDoubling)]⟩, []⟩ 0 doubling.nodes).apply ofCore.start =
      (.ok (forwardDoubling, [fragmentDoubling]), s) := ⟨_, rfl⟩

theorem joint_doubling : ∃ s, (ofCore.joint ⟨1⟩ doubling).apply ofCore.start =
    (.ok ⟨jointDoubling, [⟨0, "core::add", .fallback, false⟩]⟩, s) := by
  obtain ⟨s, hnodes⟩ := jointNodes_doubling
  unfold joint
  simp only [Act.apply_bind, Act.apply_lift, start_doubling, hnodes]
  exact ⟨_, rfl⟩

theorem selectsDisciplined_doubling :
    ofCore.SelectsDisciplined (ofCore.decisions ⟨true, ⟨1⟩, doubling⟩ ofCore.start) := by
  have hdecisions : ∃ d, ofCore.decisions ⟨true, ⟨1⟩, doubling⟩ ofCore.start = [d] ∧
      d.op = Core.add ∧ d.rule = none := ⟨_, rfl, rfl, rfl⟩
  obtain ⟨d, hd, hop, hrule⟩ := hdecisions
  intro d' hd' T executor hT
  rw [hd, List.mem_singleton] at hd'
  rw [hd', hop, hrule] at hT
  obtain rfl : Core.addGradient = T := (Prod.mk.inj (Except.ok.inj hT)).1
  exact Core.disciplined_addGradient

theorem joint_gradients_doubling : ∃ s,
    ofCore.SelectsDisciplined (ofCore.decisions ⟨true, ⟨1⟩, doubling⟩ ofCore.start) ∧
      (ofCore.joint ⟨1⟩ doubling).apply ofCore.start =
        (.ok ⟨jointDoubling, [⟨0, "core::add", .fallback, false⟩]⟩, s) ∧
        ∃ p fragments outputs inputs cotangents replayed gradients,
          jointDoubling.Joins p fragments outputs inputs cotangents replayed gradients := by
  obtain ⟨s, hjoint⟩ := joint_doubling
  obtain ⟨-, _, p, fragments, _, outputs, inputs, cotangents, replayed, gradients, -, -, -, -,
    hjoins⟩ := joint_gradients ofCore ⟨1⟩ doubling ofCore.start s _ selectsDisciplined_doubling
      hjoint
  exact ⟨s, selectsDisciplined_doubling, hjoint, p, fragments, outputs, inputs, cotangents, replayed,
    gradients, hjoins⟩

end Replacer

end TraceSubstitution
