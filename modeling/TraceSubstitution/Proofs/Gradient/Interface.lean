import TraceSubstitution.Proofs.Gradient.Joint
import TraceSubstitution.Proofs.Gradient.Moments
import TraceSubstitution.Proofs.Replacement.Interface
import TraceSubstitution.Proofs.Trace.Closed

/-!
# The interface of joint programs

The backward part of a joint program cannot fail. The gradient transforms may do
what they like, as long as they return symbols of the program they work on: when
all of them have run, everything that stands for a symbol of the source belongs to
the program, and every fragment fits. So the steps that remain can all be made
(`Replacer.backward_total`), and the joint program has the inputs of the source and
then one for every output, and the outputs of the source and then one for every
input (`Replacer.interface_kept`).
-/

namespace TraceSubstitution

variable {α : Type}

/-- On symbols of a program the transform returns symbols of this program. -/
def Transform.ReturnsOwned (T : Transform α) : Prop :=
  ∀ args t outputs t', t.capture = some .empty →
    (∀ s, some s ∈ args.tensors → t.owns s = true) →
    (T args).run.apply t = (.ok outputs, t') → ∀ s ∈ outputs, t'.owns s = true

namespace Tracer

/-- The results of a call belong to the program. -/
theorem owns_of_call {t t' : Tracer α} {op : NodeOp α} {operands : List (Option Symbol)}
    {attrs : Attrs} {results : List Symbol}
    (h : (call op operands attrs).apply t = (.ok results, t')) :
    ∀ s ∈ results, t'.owns s = true := by
  obtain ⟨bound, types, -, -, -, rfl, rfl⟩ := call_eq_ok_iff.1 h
  intro s hs
  refine owns_of_le (owns_declare hs) ?_ (id_append _)
  simp only [symbols_append, List.prefix_rfl]

end Tracer

/-- A disciplined run that starts from symbols of the program returns symbols of the program. -/
theorem Recipe.Disciplined.owned {r : Recipe α (List Symbol)} {k : Scope} {t t' : Tracer α}
    (h : r.Disciplined k t) (hoperands : ∀ s ∈ k.operands, t.owns s = true)
    (hrecorded : ∀ s ∈ k.recorded, t.owns s = true) {outputs : List Symbol}
    (hrun : r.run.apply t = (.ok outputs, t')) : ∀ s ∈ outputs, t'.owns s = true := by
  induction r generalizing k t with
  | done result =>
    obtain ⟨hresult, rfl⟩ := Prod.mk.inj hrun
    exact fun s hs => (h outputs hresult s hs).elim (hoperands s) (hrecorded s)
  | read next ih => exact ih t h hoperands hrecorded hrun
  | call op operands attrs next ih =>
    obtain ⟨-, hok, herror⟩ := h
    rcases run_call_eq_ok_iff.1 hrun with ⟨results, t₁, hcall, hnext⟩ | ⟨e, hcall, hnext⟩
    · have hextends := Tracer.extends_of_call hcall
      refine ih _ (hok results t₁ hcall) (fun s hs => hextends.owns (hoperands s hs))
        (fun s hs => ?_) hnext
      unfold Scope.afterCall at hs
      split at hs
      · exact hextends.owns (hrecorded s hs)
      · exact (List.mem_append.1 hs).elim (fun hs => hextends.owns (hrecorded s hs))
          (Tracer.owns_of_call hcall s)
    · exact ih _ (herror e hcall) hoperands hrecorded hnext
  | incoming primal next ih =>
    obtain ⟨-, hok, herror⟩ := h
    rcases run_incoming_eq_ok_iff.1 hrun with ⟨s, t₁, hincoming, hnext⟩ | ⟨e, hincoming, hnext⟩
    · have hextends := Tracer.extends_of_incomingGradient hincoming
      exact ih _ (hok s t₁ hincoming) (fun s hs => hextends.owns (hoperands s hs))
        (fun s hs => hextends.owns (hrecorded s hs)) hnext
    · exact ih _ (herror e hincoming) hoperands hrecorded hnext
  | accumulate target contribution next ih =>
    obtain ⟨-, -, hok, herror⟩ := h
    rcases run_accumulate_eq_ok_iff.1 hrun with ⟨t₁, haccumulate, hnext⟩ | ⟨e, haccumulate, hnext⟩
    · have hextends := Tracer.extends_of_accumulateGradient haccumulate
      exact ih _ (hok t₁ haccumulate) (fun s hs => hextends.owns (hoperands s hs))
        (fun s hs => hextends.owns (hrecorded s hs)) hnext
    · exact ih _ (herror e haccumulate) hoperands hrecorded hnext

theorem Transform.Disciplined.returnsOwned {T : Transform α} (h : T.Disciplined) :
    T.ReturnsOwned := fun args t _ _ ht howned hrun =>
  (h args t ht).owned (fun s hs => howned s (List.reduceOption_mem_iff.1 hs))
    (fun _ hs => absurd hs List.not_mem_nil) hrun

/-- The gradient transforms that are selected by the given decisions return symbols of the program
they work on. -/
def Replacer.SelectsOwned (r : Replacer α) (decisions : List (Decided α)) : Prop :=
  ∀ d ∈ decisions, ∀ T executor, r.gradientTransform d.op d.rule = .ok (T, executor) →
    T.ReturnsOwned

theorem Replacer.SelectsDisciplined.owned {r : Replacer α} {decisions : List (Decided α)}
    (h : r.SelectsDisciplined decisions) : r.SelectsOwned decisions :=
  fun d hd T executor hT => (h d hd T executor hT).returnsOwned

/-- A report has one record for every high-level call of the source, at increasing positions, and
each call has been replaced or runs its reference implementation. -/
structure Report.Covers (report : Report) (source : Trace α) : Prop where
  calls : report.calls = source.namedCalls
  sorted : (report.map (·.node)).Pairwise (· < ·)
  counts : report.substituted + report.fallbacks = source.highLevelCalls.length

theorem Report.covers_of_calls {report : Report} {source : Trace α}
    (h : report.calls = source.namedCalls) : report.Covers source := by
  refine ⟨h, ?_, ?_⟩
  · have hnodes : report.map (·.node) = source.highLevelCalls.map Prod.fst := by
      have hfirst := congrArg (List.map Prod.fst) h
      rwa [calls, Trace.namedCalls, List.map_map, List.map_map] at hfirst
    rw [hnodes]
    exact Node.sorted_highLevelCalls source.nodes 0
  · have hlength := congrArg List.length h
    rw [calls, Trace.namedCalls, List.length_map, List.length_map] at hlength
    rw [Report.substituted_add_fallbacks, hlength]

namespace Progress

/-- Something stands for the known symbols of the source, and what stands for a symbol belongs to
the new program. -/
structure Stands (p : Progress α) (known : List SymbolId) : Prop where
  capture : p.tracer.capture = none
  owned : ∀ id s, p.symbols.get? id = some s → p.tracer.owns s = true
  covers : p.symbols.Covers known

variable {p : Progress α} {known : List SymbolId}

theorem stands_start {id : TraceId} {source : Trace α} (h : start id source = .ok p) :
    p.Stands source.inputs := by
  obtain ⟨types, htypes, rfl⟩ := start_eq_ok_iff.1 h
  have hlength : types.length = source.inputs.length := by
    have hlengths := congrArg List.length htypes
    rw [List.length_map, List.length_map] at hlengths
    exact hlengths.symm
  refine ⟨rfl, fun id' s hs => ?_, ?_⟩
  · rcases SymbolMap.mem_of_get?_insertAll _ _ _ hs with hmem | hget
    · exact Tracer.owns_declare hmem
    · exact nomatch hget
  · have hnone : SymbolMap.Covers (.empty : SymbolMap Symbol) [] := fun _ hid =>
      absurd hid List.not_mem_nil
    have hcovers : SymbolMap.Covers (SymbolMap.empty.insertAll source.inputs
        ((Tracer.empty id : Tracer α).fresh types)) ([] ++ source.inputs) :=
      hnone.insertAll ((Tracer.length_fresh types).trans hlength)
    exact hcovers

theorem Stands.owns_operands (h : p.Stands known) {n : Node α} {operands : List (Option Symbol)}
    (hoperands : p.operandsFor n = .ok operands) :
    ∀ s, some s ∈ operands → p.tracer.owns s = true := by
  intro s hs
  have hmem : some (some s) ∈ operands.map (·.map some) := List.mem_map.2 ⟨some s, hs, rfl⟩
  rw [← operandsFor_eq_ok_iff.1 hoperands] at hmem
  obtain ⟨x, -, hx⟩ := List.mem_map.1 hmem
  obtain ⟨id, -, hget⟩ := Option.map_eq_some_iff.1 hx
  exact h.owned id s hget

/-- What stands for known symbols can be found. -/
theorem Stands.exists_symbols (h : p.Stands known) {ids : List SymbolId} (hids : ids ⊆ known) :
    ∃ symbols, ids.mapM p.symbolFor = .ok symbols ∧ ∀ s ∈ symbols, p.tracer.owns s = true := by
  obtain ⟨symbols, hsymbols⟩ := SymbolMap.Covers.exists_map fun id hid => h.covers id (hids hid)
  refine ⟨symbols, symbolsFor_eq_ok_iff.2 hsymbols, fun s hs => ?_⟩
  have hmem : some s ∈ symbols.map some := List.mem_map_of_mem hs
  rw [← hsymbols] at hmem
  obtain ⟨id, -, hget⟩ := List.mem_map.1 hmem
  exact h.owned id s hget

end Progress

namespace Replacer

variable {r : Replacer α} {p p' : Progress α} {index : Nat} {n : Node α} {nodes : List (Node α)}
  {s s' : Journaled (Decisions α)} {fragment : Fragment α} {fragments : List (Fragment α)}
  {known : List SymbolId}

/-- One call: something stands for its outputs, and its fragment fits. -/
theorem stands_of_step (hp : p.Stands known)
    (hselected : r.SelectsOwned (r.decision? true p index n s).toList)
    (h : (r.step true p index n).apply s = (.ok (p', fragment), s')) :
    p'.Stands (known ++ n.outputs) ∧ fragment.Typed p'.tracer.symbols ∧
      p.tracer.symbols <+: p'.tracer.symbols := by
  obtain ⟨o, operands, d, hoperands, hd, rfl, hstep⟩ := exists_decision_of_step h
  obtain ⟨outputs, p₁, hreplacement, hlength, rfl⟩ := decidedStep_eq_ok_iff.1 hstep
  obtain ⟨T, executor, t, hT, hrun, -, rfl, rfl⟩ := jointOutputs_eq_ok_iff.1 hreplacement
  have hextends := Recipe.extends_of_run hrun
  have howned := hp.owns_operands hoperands
  have houtputs := hselected d (hd ▸ List.mem_singleton_self d) T executor hT
    ⟨d.op.qualifiedName, operands, n.attrs⟩ p.tracer.beginBackward outputs t rfl howned hrun
  refine ⟨⟨rfl, fun id x hx => ?_, hp.covers.insertAll hlength⟩,
    ((Tracer.capturesTyped_beginBackward p.tracer).run hrun).endBackward, hextends.symbols⟩
  rcases SymbolMap.mem_of_get?_insertAll _ _ _ hx with hmem | hget
  · exact houtputs x hmem
  · exact hextends.owns (hp.owned id x hget)

/-- All calls: something stands for their outputs, and all fragments fit. -/
theorem stands_of_steps (hp : p.Stands known)
    (hselected : r.SelectsOwned (r.nodeDecisions true p index nodes s))
    (h : (r.steps true p index nodes).apply s = (.ok (p', fragments), s')) :
    p'.Stands (known ++ nodes.flatMap (·.outputs)) ∧
      (∀ f ∈ fragments, f.Typed p'.tracer.symbols) ∧
      p.tracer.symbols <+: p'.tracer.symbols := by
  induction nodes generalizing p index s fragments known with
  | nil =>
    obtain ⟨rfl, rfl⟩ := Prod.mk.inj (Except.ok.inj (Prod.mk.inj h).1)
    exact ⟨(List.append_nil known).symm ▸ hp, nofun, List.prefix_rfl⟩
  | cons n nodes ih =>
    obtain ⟨p₁, fragment, s₁, rest, hstep, hrest, rfl⟩ := steps_cons_eq_ok_iff.1 h
    rw [nodeDecisions, hstep] at hselected
    obtain ⟨hp₁, hfragment, hle₁⟩ :=
      stands_of_step hp (fun d hd => hselected d (List.mem_append_left _ hd)) hstep
    obtain ⟨hp', hfragments, hle⟩ :=
      ih hp₁ (fun d hd => hselected d (List.mem_append_right _ hd)) hrest
    rw [List.flatMap_cons, ← List.append_assoc]
    refine ⟨hp', ?_, hle₁.trans hle⟩
    split
    · exact hfragments
    · exact List.forall_mem_cons.2 ⟨hfragment.mono hle, hfragments⟩

end Replacer

namespace Fragment

variable {t : Tracer α}

/-- The steps of a fragment that fits. -/
theorem Typed.fits {f : Fragment α} (h : f.Typed t.symbols) :
    ∀ step ∈ f.buildSteps, step.Fits t := by
  intro step hstep
  rcases List.mem_append.1 hstep with hstep | hstep
  · rcases List.mem_append.1 hstep with hstep | hstep
    · obtain ⟨x, hx, rfl⟩ := List.mem_map.1 hstep
      exact h.placeholders x hx
    · obtain ⟨part, hpart, rfl⟩ := List.mem_map.1 hstep
      cases part with
      | node n => trivial
      | accumulate target contribution => exact h.contributions target contribution hpart
  · rw [List.mem_singleton.1 hstep]
    trivial

/-- Replaying a fragment declares no input and takes no gradient of an input. -/
theorem types_of_mem_buildSteps {f : Fragment α} {step : BuildStep α} (h : step ∈ f.buildSteps) :
    step.inputTypes = [] ∧ step.gradientTypes = [] := by
  rcases List.mem_append.1 h with h | h
  · rcases List.mem_append.1 h with h | h
    · obtain ⟨x, -, rfl⟩ := List.mem_map.1 h
      exact ⟨rfl, rfl⟩
    · obtain ⟨part, -, rfl⟩ := List.mem_map.1 h
      exact ⟨rfl, rfl⟩
  · rw [List.mem_singleton.1 h]
    exact ⟨rfl, rfl⟩

end Fragment

namespace Backward

variable {t : Tracer α} {outputs inputs : List Symbol} {fragments : List (Fragment α)}

theorem fits_steps (houtputs : ∀ s ∈ outputs, t.owns s = true)
    (hinputs : ∀ s ∈ inputs, t.owns s = true) (hfragments : ∀ f ∈ fragments, f.Typed t.symbols) :
    ∀ step ∈ steps outputs inputs fragments, step.Fits t := by
  intro step hstep
  rcases List.mem_append.1 hstep with hstep | hstep
  · rcases List.mem_append.1 hstep with hstep | hstep
    · obtain ⟨output, houtput, rfl⟩ := List.mem_map.1 hstep
      exact houtputs output houtput
    · obtain ⟨f, hf, hstep⟩ := List.mem_flatMap.1 hstep
      exact (hfragments f (List.mem_reverse.1 hf)).fits step hstep
  · obtain ⟨input, hinput, rfl⟩ := List.mem_map.1 hstep
    exact hinputs input hinput

theorem inputTypes_steps (outputs inputs : List Symbol) (fragments : List (Fragment α)) :
    (steps outputs inputs fragments).flatMap BuildStep.inputTypes = outputs.map Symbol.type := by
  have hreplay :
      (fragments.reverse.flatMap Fragment.buildSteps).flatMap BuildStep.inputTypes = [] :=
    List.flatMap_eq_nil_iff.2 fun step hstep => by
      obtain ⟨f, -, hstep⟩ := List.mem_flatMap.1 hstep
      exact (Fragment.types_of_mem_buildSteps hstep).1
  have hfill : (inputs.map (.fill : Symbol → BuildStep α)).flatMap BuildStep.inputTypes = [] :=
    List.flatMap_eq_nil_iff.2 fun step hstep => by
      obtain ⟨input, -, rfl⟩ := List.mem_map.1 hstep
      rfl
  rw [steps, List.flatMap_append, List.flatMap_append, hreplay, hfill, List.append_nil,
    List.append_nil, List.flatMap_map, List.map_eq_flatMap]
  rfl

theorem gradientTypes_steps (outputs inputs : List Symbol) (fragments : List (Fragment α)) :
    (steps outputs inputs fragments).flatMap BuildStep.gradientTypes = inputs.map Symbol.type := by
  have hreplay :
      (fragments.reverse.flatMap Fragment.buildSteps).flatMap BuildStep.gradientTypes = [] :=
    List.flatMap_eq_nil_iff.2 fun step hstep => by
      obtain ⟨f, -, hstep⟩ := List.mem_flatMap.1 hstep
      exact (Fragment.types_of_mem_buildSteps hstep).2
  have hcotangents :
      (outputs.map (.cotangent : Symbol → BuildStep α)).flatMap BuildStep.gradientTypes = [] :=
    List.flatMap_eq_nil_iff.2 fun step hstep => by
      obtain ⟨output, -, rfl⟩ := List.mem_map.1 hstep
      rfl
  rw [steps, List.flatMap_append, List.flatMap_append, hreplay, hcotangents, List.append_nil,
    List.nil_append, List.flatMap_map, List.map_eq_flatMap]
  rfl

/-- Before the first step nothing is bound. -/
theorem typed_atStart (ht : t.capture = none) {types : List TensorType}
    (htypes : t.inputs.map (fun id => t.symbols[id.index]?) = types.map some) :
    (atStart t).Typed types [] where
  backward := ⟨ht, fun _ _ => trivial, nofun⟩
  renamed := ⟨[], renames_empty _ _⟩
  inputs := htypes
  gradients := ⟨rfl, nofun⟩

end Backward

namespace Replacer

variable [Scalar α] {r : Replacer α} {id : TraceId} {source : Trace α} {p₀ p : Progress α}
  {fragments : List (Fragment α)} {s s' : Journaled (Decisions α)}

omit [Scalar α] in
/-- When all gradient transforms have run, what stands for the outputs and inputs of the source has
their types, and the steps that remain can be made. -/
theorem fits_of_steps (hsource : source.Recorded)
    (hbuilt : ∀ n ∈ source.nodes, n.op.operator.signature.Built)
    (hselected : r.SelectsOwned (r.decisions ⟨true, id, source⟩ s))
    (hstart : Progress.start id source = .ok p₀)
    (hsteps : (r.steps true p₀ 0 source.nodes).apply s = (.ok (p, fragments), s')) :
    ∃ outputs inputs, source.outputs.mapM p.symbolFor = .ok outputs ∧
      source.inputs.mapM p.symbolFor = .ok inputs ∧
      outputs.map Symbol.type = source.outputTypes ∧ inputs.map Symbol.type = source.inputTypes ∧
      (∀ s ∈ outputs, p.tracer.owns s = true) ∧
      (Backward.atStart p.tracer).Typed source.inputTypes [] ∧
      ∀ step ∈ Backward.steps outputs inputs fragments, step.Fits p.tracer := by
  unfold decisions at hselected
  rw [hstart] at hselected
  obtain ⟨hstands, hfragments, -⟩ :=
    stands_of_steps (Progress.stands_start hstart) hselected hsteps
  have hkeeps := keeps_of_steps (Progress.keeps_start hstart) (typable hsource hbuilt) hsteps
  obtain ⟨outputs, houtputs, hownedOutputs⟩ := hstands.exists_symbols hsource.closed.2
  obtain ⟨inputs, hinputs, hownedInputs⟩ :=
    hstands.exists_symbols (List.subset_append_left source.inputs _)
  exact ⟨outputs, inputs, houtputs, hinputs,
    (Trace.filterMap_eq_of_map (hkeeps.symbolTypes houtputs)).symm,
    (Trace.filterMap_eq_of_map (hkeeps.symbolTypes hinputs)).symm, hownedOutputs,
    Backward.typed_atStart hstands.capture hkeeps.inputs,
    Backward.fits_steps hownedOutputs hownedInputs hfragments⟩

/-- Once all gradient transforms have run, nothing fails any more: the backward part is built step
by step, the gradients that are bound always have the types of their symbols, and the joint program
is finished. -/
theorem backward_total (hsource : source.Recorded)
    (hbuilt : ∀ n ∈ source.nodes, n.op.operator.signature.Built)
    (hselected : r.SelectsOwned (r.decisions ⟨true, id, source⟩ s))
    (hstart : Progress.start id source = .ok p₀)
    (hsteps : (r.steps true p₀ 0 source.nodes).apply s = (.ok (p, fragments), s')) :
    ∃ outputs inputs, source.outputs.mapM p.symbolFor = .ok outputs ∧
      source.inputs.mapM p.symbolFor = .ok inputs ∧
      (∀ done rest, Backward.steps outputs inputs fragments = done ++ rest →
        ∃ m, (Backward.atStart p.tracer).run done = .ok m ∧ m.GradientsTyped) ∧
      ∃ trace s'', (r.joint id source).apply s = (.ok ⟨trace, p.report⟩, s'') ∧
        trace.HasInterface (source.inputTypes ++ source.outputTypes)
          (source.outputTypes ++ source.inputTypes) := by
  obtain ⟨outputs, inputs, houtputs, hinputs, houtputTypes, hinputTypes, hownedOutputs, hatStart,
    hfits⟩ := fits_of_steps hsource hbuilt hselected hstart hsteps
  refine ⟨outputs, inputs, houtputs, hinputs, fun done rest heq => ?_, ?_⟩
  · obtain ⟨m, hrun, hm, -⟩ := hatStart.run fun step hstep =>
      hfits step (heq ▸ List.mem_append_left rest hstep)
    exact ⟨m, hrun, hm.gradientsTyped⟩
  · obtain ⟨m, hrun, hm, hid, hle⟩ := hatStart.run hfits
    rw [Backward.inputTypes_steps, Backward.gradientTypes_steps, houtputTypes, hinputTypes,
      List.nil_append] at hm
    have hbuild : (Backward.build outputs inputs fragments).apply (p.tracer, .empty) =
        (.ok m.gradients, m.backward) := by
      refine Act.outcome_eq_ok_iff.1 ?_
      rw [Backward.outcome_build, hrun]
      rfl
    have howned : ∀ s ∈ outputs ++ m.gradients, m.backward.1.owns s = true := by
      intro s hs
      rcases List.mem_append.1 hs with hs | hs
      · exact Tracer.owns_of_le (hownedOutputs s hs) hle hid
      · exact hm.gradients.2 s hs
    have hfinish := Tracer.finish_eq_ok_iff.2 ⟨hm.backward.capture, howned, rfl⟩
    obtain ⟨s'', hjoint⟩ := exists_joint hstart hsteps houtputs hinputs hbuild hfinish
    refine ⟨_, s'', hjoint, hm.inputs, ?_⟩
    rw [Trace.map_typeOf?_of_finish hfinish, List.map_append, houtputTypes, hm.gradients.1]

/-- A program has the interface that its source promises, whatever the transforms do: a forward
program that of the source, a joint program one more input for every output and one more output for
every input. The report covers the calls of the source. When the gradient transforms of all calls
have run, the joint program cannot fail, and every gradient that is bound on the way has the type
of the symbol it belongs to. -/
theorem interface_kept (r : Replacer α) (id : TraceId) (source : Trace α)
    (s : Journaled (Decisions α)) (hsource : source.Recorded)
    (hbuilt : ∀ n ∈ source.nodes, n.op.operator.signature.Built) :
    (∀ x s', (r.forward id source).apply s = (.ok x, s') →
      x.trace.HasInterface source.inputTypes source.outputTypes ∧ x.report.Covers source) ∧
    (r.SelectsOwned (r.decisions ⟨true, id, source⟩ s) →
      (∀ x s', (r.joint id source).apply s = (.ok x, s') →
        x.trace.HasInterface (source.inputTypes ++ source.outputTypes)
          (source.outputTypes ++ source.inputTypes) ∧ x.report.Covers source) ∧
      ∀ p₀ p fragments s', Progress.start id source = .ok p₀ →
        (r.jointNodes p₀ 0 source.nodes).apply s = (.ok (p, fragments), s') →
        ∃ outputs inputs, source.outputs.mapM p.symbolFor = .ok outputs ∧
          source.inputs.mapM p.symbolFor = .ok inputs ∧
          (∀ done rest, Backward.steps outputs inputs fragments = done ++ rest →
            ∃ m, (Backward.atStart p.tracer).run done = .ok m ∧ m.GradientsTyped) ∧
          ∃ x s'', (r.joint id source).apply s = (.ok x, s'')) := by
  refine ⟨fun x s' h => ⟨hasInterface_of_forward hsource hbuilt h,
    Report.covers_of_calls (calls_of_forward h)⟩, fun hselected => ⟨fun x s' h => ?_,
      fun p₀ p fragments s' hstart hnodes => ?_⟩⟩
  · obtain ⟨p₀, p, fragments, s₁, _, _, _, _, _, hstart, hnodes, -⟩ := joint_eq_ok h
    rw [jointNodes_eq] at hnodes
    obtain ⟨-, -, -, -, -, trace, s'', hjoint, hinterface⟩ :=
      backward_total hsource hbuilt hselected hstart hnodes
    obtain rfl : ⟨trace, p.report⟩ = x :=
      Except.ok.inj (Prod.mk.inj (hjoint.symm.trans h)).1
    refine ⟨hinterface, Report.covers_of_calls ?_⟩
    rw [calls_of_steps hnodes, report_start hstart]
    rfl
  · rw [jointNodes_eq] at hnodes
    obtain ⟨outputs, inputs, houtputs, hinputs, hmoments, trace, s'', hjoint, -⟩ :=
      backward_total hsource hbuilt hselected hstart hnodes
    exact ⟨outputs, inputs, houtputs, hinputs, hmoments, _, s'', hjoint⟩

/-- The joint program of `doubling` takes a cotangent and returns a gradient as well. -/
theorem interface_kept_doubling : doubling.Recorded ∧
    (∀ n ∈ doubling.nodes, n.op.operator.signature.Built) ∧
    ofCore.SelectsOwned (ofCore.decisions ⟨true, ⟨1⟩, doubling⟩ ofCore.start) ∧
    (∃ s, (ofCore.joint ⟨1⟩ doubling).apply ofCore.start =
      (.ok ⟨jointDoubling, [⟨0, "core::add", .fallback, false⟩]⟩, s)) ∧
    jointDoubling.HasInterface [oneNumber, oneNumber] [oneNumber, oneNumber] ∧
    Report.Covers [⟨0, "core::add", .fallback, false⟩] doubling := by
  have hbuilt : ∀ n ∈ doubling.nodes, n.op.operator.signature.Built := by
    intro n hn
    rw [List.mem_singleton.1 hn]
    exact .tensor "rhs" (.tensor "lhs" .empty)
  obtain ⟨s, hjoint⟩ := joint_doubling
  have howned := selectsDisciplined_doubling.owned
  obtain ⟨hjoints, -⟩ :=
    (interface_kept ofCore ⟨1⟩ doubling ofCore.start recorded_doubling hbuilt).2 howned
  obtain ⟨hinterface, hreport⟩ := hjoints _ s hjoint
  exact ⟨recorded_doubling, hbuilt, howned, ⟨s, hjoint⟩, hinterface, hreport⟩

end Replacer

end TraceSubstitution
