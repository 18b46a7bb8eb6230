import TraceSubstitution.Proofs.Replacement.History

/-!
# Going through a source

What one call of the source does to the program under way, whatever is remembered
and whatever the transforms do: in a forward program it is recorded again or an
execution transform has been run (`Replacer.exists_outputs_of_step`), in a joint
program a gradient transform has been run with an open capture
(`Replacer.exists_gradient_of_step`). Every high-level call is reported once, under
its position (`Replacer.calls_of_steps`). A forward program is therefore recorded,
like any program that is built up by inputs and calls (`Replacer.recorded_of_forward`).
-/

namespace TraceSubstitution

variable {α : Type}

/-- The calls that a report is about, by position and name. -/
def Report.calls (r : Report) : List (Nat × String) := r.map fun record => (record.node, record.op)

/-- The high-level calls of a program, by position and name. -/
def Trace.namedCalls (p : Trace α) : List (Nat × String) :=
  p.highLevelCalls.map fun call => (call.1, call.2.qualifiedName)

@[simp] theorem Report.calls_append (r r' : Report) :
    Report.calls (r ++ r') = r.calls ++ r'.calls := List.map_append

/-- Positions increase along a list, so they do along the high-level calls in it. -/
theorem Node.sorted_highLevelCalls (nodes : List (Node α)) (first : Nat) :
    (((nodes.zipIdx first).filterMap fun x => x.1.highLevelAt? x.2).map Prod.fst).Pairwise
      (· < ·) := by
  have hposition : ∀ (x : Node α × Nat) y, x.1.highLevelAt? x.2 = some y → y.1 = x.2 := by
    rintro ⟨n, index⟩ y hy
    unfold Node.highLevelAt? at hy
    split at hy
    · exact congrArg Prod.fst (Option.some.inj hy).symm
    · exact nomatch hy
  rw [List.pairwise_map, List.pairwise_filterMap]
  have hsorted : ((nodes.zipIdx first).map Prod.snd).Pairwise (· < ·) := by
    rw [List.zipIdx_map_snd]
    exact List.pairwise_lt_range'
  refine (List.pairwise_map.1 hsorted).imp fun {x x'} hlt y hy y' hy' => ?_
  rw [hposition x y hy, hposition x' y' hy']
  exact hlt

namespace Replacer

variable {r : Replacer α} {gradient : Bool} {p p' : Progress α} {index : Nat} {n : Node α}
  {nodes : List (Node α)} {s s' : Journaled (Decisions α)} {fragment : Fragment α}
  {fragments : List (Fragment α)}

/-- A decision is recorded under the position and the name of the call, with what it leads to. -/
theorem record_of_dispatch {o : Operator α} {args : Operands Symbol} {record : DispatchRecord}
    {rule : Option (Rule α)}
    (h : (r.dispatch index o args gradient).apply s = (.ok (record, rule), s')) :
    record.node = index ∧ record.op = o.qualifiedName ∧ record.outcome = outcomeOf rule := by
  have hrest : ∀ (rule' : Option (Rule α)) (remembered : Bool) (s : Journaled (Decisions α)),
      (do
        Journaled.put ((← Journaled.current).remember (.ofCall o.id gradient args) rule')
        let record : DispatchRecord := ⟨index, o.qualifiedName, outcomeOf rule', remembered⟩
        Journaled.note (decisionEvent record gradient)
        return (record, rule') : Act (Journaled (Decisions α)) _).apply s =
          (.ok (record, rule), s') → record.node = index ∧ record.op = o.qualifiedName ∧
            record.outcome = outcomeOf rule := by
    intro rule' remembered s h
    obtain ⟨rfl, rfl⟩ := Prod.mk.inj (Except.ok.inj (Prod.mk.inj h).1)
    exact ⟨rfl, rfl, rfl⟩
  unfold dispatch at h
  obtain ⟨d, s₁, -, h⟩ := Act.apply_bind_eq_ok_iff.1 h
  cases hfind : d.find? (.ofCall o.id gradient args) with
  | some rule' =>
    rw [hfind] at h
    exact hrest rule' true s₁ h
  | none =>
    rw [hfind] at h
    obtain ⟨rule', s₂, -, h⟩ := Act.apply_bind_eq_ok_iff.1 h
    exact hrest rule' false s₂ h

/-- A high-level call that succeeds has been decided about. -/
theorem exists_dispatch_of_step {o : Operator α} (hop : n.op = .highLevel o)
    (h : (r.step gradient p index n).apply s = (.ok (p', fragment), s')) :
    ∃ operands record rule, p.operandsFor n = .ok operands ∧
      (r.dispatch index o ⟨o.qualifiedName, operands, n.attrs⟩ gradient).apply s =
        (.ok (record, rule), s') ∧
      r.decidedStep gradient p o n operands record rule = .ok (p', fragment) := by
  cases hoperands : p.operandsFor n with
  | error e =>
    rw [apply_step_of_operandsFor_error hop hoperands] at h
    exact nomatch (Prod.mk.inj h).1
  | ok operands =>
    rw [apply_step_highLevel hop hoperands] at h
    rcases hdispatch : (r.dispatch index o ⟨o.qualifiedName, operands, n.attrs⟩ gradient).apply s
      with ⟨e | ⟨record, rule⟩, s₁⟩
    · rw [hdispatch] at h
      exact nomatch (Prod.mk.inj h).1
    · rw [hdispatch] at h
      obtain ⟨hdecided, rfl⟩ := Prod.mk.inj h
      exact ⟨operands, record, rule, rfl, hdispatch, hdecided⟩

/-- In a forward program a call is recorded again, or an execution transform has been run in its
place. -/
theorem exists_outputs_of_step
    (h : (r.step false p index n).apply s = (.ok (p', fragment), s')) :
    ∃ operands outputs, p.operandsFor n = .ok operands ∧ outputs.length = n.outputs.length ∧
      p'.symbols = p.symbols.insertAll n.outputs outputs ∧
      ((Tracer.call n.op operands n.attrs).apply p.tracer = (.ok outputs, p'.tracer) ∨
        ∃ (o : Operator α) (rule : Rule α), n.op = .highLevel o ∧
          (rule.execution ⟨o.qualifiedName, operands, n.attrs⟩).run.apply p.tracer =
            (.ok outputs, p'.tracer) ∧
          o.infer (operands.map (·.map Symbol.type)) n.attrs = .ok (outputs.map Symbol.type)) := by
  cases hop : n.op with
  | kernel o =>
    rw [apply_step_kernel hop] at h
    obtain ⟨-, -, operands, outputs, t, hoperands, hcall, hlength, rfl⟩ :=
      kernelStep_eq_ok_iff.1 (Prod.mk.inj h).1
    exact ⟨operands, outputs, hoperands, hlength, rfl, .inl hcall⟩
  | highLevel o =>
    obtain ⟨operands, record, rule, hoperands, -, hdecided⟩ := exists_dispatch_of_step hop h
    obtain ⟨outputs, p₁, hreplacement, hlength, rfl⟩ := decidedStep_eq_ok_iff.1 hdecided
    refine ⟨operands, outputs, hoperands, hlength, rfl, ?_⟩
    unfold replacement at hreplacement
    obtain ⟨⟨outputs', p₂⟩, houtputs, heq⟩ := bind_eq_ok_iff.1 hreplacement
    obtain ⟨rfl, -, rfl⟩ : outputs' = outputs ∧ ⟨[], []⟩ = fragment ∧ p₂ = p₁ := by
      simpa using heq
    cases rule with
    | none =>
      obtain ⟨t, hcall, rfl⟩ := forwardOutputs_none_eq_ok_iff.1 houtputs
      exact .inl hcall
    | some rule =>
      obtain ⟨t, hrun, hinfer, rfl⟩ := forwardOutputs_some_eq_ok_iff.1 houtputs
      exact .inr ⟨o, rule, rfl, hrun, hinfer⟩

/-- In a joint program a gradient transform has been run with an open capture. -/
theorem exists_gradient_of_step
    (h : (r.step true p index n).apply s = (.ok (p', fragment), s')) :
    ∃ o operands outputs rule T executor t, n.op = .highLevel o ∧
      p.operandsFor n = .ok operands ∧ outputs.length = n.outputs.length ∧
      p'.symbols = p.symbols.insertAll n.outputs outputs ∧
      r.gradientTransform o rule = .ok (T, executor) ∧
      (T ⟨o.qualifiedName, operands, n.attrs⟩).run.apply p.tracer.beginBackward = (.ok outputs, t) ∧
      o.infer (operands.map (·.map Symbol.type)) n.attrs = .ok (outputs.map Symbol.type) ∧
      fragment = t.endBackward.1 ∧ p'.tracer = t.endBackward.2 := by
  cases hop : n.op with
  | kernel o =>
    rw [apply_step_kernel hop] at h
    exact nomatch (kernelStep_eq_ok_iff.1 (Prod.mk.inj h).1).1
  | highLevel o =>
    obtain ⟨operands, record, rule, hoperands, -, hdecided⟩ := exists_dispatch_of_step hop h
    obtain ⟨outputs, p₁, hreplacement, hlength, rfl⟩ := decidedStep_eq_ok_iff.1 hdecided
    obtain ⟨T, executor, t, hT, hrun, hinfer, hfragment, rfl⟩ :=
      jointOutputs_eq_ok_iff.1 hreplacement
    exact ⟨o, operands, outputs, rule, T, executor, t, rfl, hoperands, hlength, rfl, hT, hrun,
      hinfer, hfragment, rfl⟩

/-- A high-level call is reported under its position, a kernel call is not. -/
theorem calls_of_step (h : (r.step gradient p index n).apply s = (.ok (p', fragment), s')) :
    p'.report.calls = p.report.calls ++
      (n.highLevelAt? index).toList.map fun call => (call.1, call.2.qualifiedName) := by
  unfold Node.highLevelAt?
  cases hop : n.op with
  | kernel o =>
    rw [apply_step_kernel hop] at h
    obtain ⟨-, -, _, _, t, -, -, -, rfl⟩ := kernelStep_eq_ok_iff.1 (Prod.mk.inj h).1
    exact (List.append_nil _).symm
  | highLevel o =>
    obtain ⟨operands, record, rule, -, hdispatch, hdecided⟩ := exists_dispatch_of_step hop h
    obtain ⟨outputs, p₁, -, -, rfl⟩ := decidedStep_eq_ok_iff.1 hdecided
    obtain ⟨hnode, hname, -⟩ := record_of_dispatch hdispatch
    rw [Report.calls_append]
    simp [Report.calls, hnode, hname]

/-- Every high-level call is reported once, in order. -/
theorem calls_of_steps
    (h : (r.steps gradient p index nodes).apply s = (.ok (p', fragments), s')) :
    p'.report.calls = p.report.calls ++
      ((nodes.zipIdx index).filterMap fun x => x.1.highLevelAt? x.2).map
        fun call => (call.1, call.2.qualifiedName) := by
  induction nodes generalizing p index s fragments with
  | nil =>
    obtain ⟨rfl, -⟩ := Prod.mk.inj (Except.ok.inj (Prod.mk.inj h).1)
    exact (List.append_nil _).symm
  | cons n nodes ih =>
    obtain ⟨p₁, fragment, s₁, rest, hstep, hrest, rfl⟩ := steps_cons_eq_ok_iff.1 h
    rw [ih hrest, calls_of_step hstep, List.append_assoc, List.zipIdx_cons]
    refine congrArg _ ?_
    cases hcall : n.highLevelAt? index with
    | none =>
      rw [List.filterMap_cons_none (by exact hcall)]
      rfl
    | some call =>
      rw [List.filterMap_cons_some (by exact hcall)]
      rfl

/-- A forward program that succeeds is what is left when all calls are done and the outputs are
found. -/
theorem forward_eq_ok {id : TraceId} {source : Trace α} {x : Replaced α}
    (h : (r.forward id source).apply s = (.ok x, s')) :
    ∃ p₀ p fragments s₁ outputs, Progress.start id source = .ok p₀ ∧
      (r.steps false p₀ 0 source.nodes).apply s = (.ok (p, fragments), s₁) ∧
      source.outputs.mapM p.symbolFor = .ok outputs ∧ p.tracer.finish outputs = .ok x.trace ∧
      x.report = p.report := by
  unfold forward at h
  simp only [forwardNodes_eq, Act.apply_bind_eq_ok_iff, Act.apply_lift, Act.apply_map,
    Prod.mk.injEq, map_eq_ok_iff] at h
  obtain ⟨p₀, _, ⟨hstart, rfl⟩, p, s₁, ⟨⟨⟨p', fragments⟩, hsteps, hp⟩, hs₁⟩, outputs, _,
    ⟨houtputs, rfl⟩, trace, _, ⟨hfinish, rfl⟩, _, _, -, hx⟩ := h
  obtain rfl : p' = p := hp
  obtain rfl : ⟨trace, p'.report⟩ = x := Except.ok.inj (Prod.mk.inj hx).1
  exact ⟨p₀, p', fragments, s₁, outputs, hstart, Prod.ext hsteps hs₁, houtputs, hfinish, rfl⟩

theorem exists_forward {id : TraceId} {source : Trace α} {p₀ : Progress α} {outputs : List Symbol}
    {trace : Trace α} (hstart : Progress.start id source = .ok p₀)
    (hsteps : (r.steps false p₀ 0 source.nodes).apply s = (.ok (p, fragments), s'))
    (houtputs : source.outputs.mapM p.symbolFor = .ok outputs)
    (hfinish : p.tracer.finish outputs = .ok trace) :
    ∃ s'', (r.forward id source).apply s = (.ok ⟨trace, p.report⟩, s'') := by
  unfold forward
  simp only [forwardNodes_eq, Act.apply_bind, Act.apply_lift, Act.apply_map, hstart, hsteps,
    Except.map, houtputs, hfinish]
  exact ⟨_, rfl⟩

end Replacer

namespace Tracer.Recorded

variable {t t' : Tracer α}

/-- Inputs for a list of types. -/
theorem addInputs (h : t.Recorded) (types : List TensorType) : (t.addInputs types).Recorded := by
  induction types generalizing t with
  | nil => exact addInputs_nil.symm ▸ h
  | cons type types ih => exact addInputs_cons t type types ▸ ih (h.input type)

/-- Outside a capture a run only makes calls: what it asks of gradients is refused. -/
theorem run (h : t.Recorded) {β : Type} {r : Recipe α β} {b : β}
    (hrun : r.run.apply t = (.ok b, t')) : t'.Recorded := by
  refine Recipe.keeps_of_run (fun _ _ _ _ _ _ ht hcall => ht.call hcall)
    (fun t t' primal gradient ht hincoming => ?_)
    (fun t t' target contribution ht haccumulate => ?_) h hrun
  · obtain ⟨-, c, hc, -⟩ := incomingGradient_eq_ok_iff.1 hincoming
    exact nomatch ht.capture_eq_none.symm.trans hc
  · obtain ⟨-, -, -, c, hc, -⟩ := accumulateGradient_eq_ok_iff.1 haccumulate
    exact nomatch ht.capture_eq_none.symm.trans hc

end Tracer.Recorded

namespace Replacer

variable {r : Replacer α} {p p' : Progress α} {index : Nat} {n : Node α}
  {nodes : List (Node α)} {s s' : Journaled (Decisions α)} {fragment : Fragment α}
  {fragments : List (Fragment α)}

/-- One call of the source makes calls in the new program, and nothing else. -/
theorem recorded_of_step (hp : p.tracer.Recorded)
    (h : (r.step false p index n).apply s = (.ok (p', fragment), s')) :
    p'.tracer.Recorded ∧ p'.tracer.id = p.tracer.id := by
  obtain ⟨operands, outputs, -, -, -, hcall | ⟨o, rule, -, hrun, -⟩⟩ := exists_outputs_of_step h
  · exact ⟨hp.call hcall, (Tracer.extends_of_call hcall).id⟩
  · exact ⟨hp.run hrun, (Recipe.extends_of_run hrun).id⟩

theorem recorded_of_steps (hp : p.tracer.Recorded)
    (h : (r.steps false p index nodes).apply s = (.ok (p', fragments), s')) :
    p'.tracer.Recorded ∧ p'.tracer.id = p.tracer.id := by
  induction nodes generalizing p index s fragments with
  | nil =>
    obtain ⟨rfl, -⟩ := Prod.mk.inj (Except.ok.inj (Prod.mk.inj h).1)
    exact ⟨hp, rfl⟩
  | cons n nodes ih =>
    obtain ⟨p₁, fragment, s₁, rest, hstep, hrest, -⟩ := steps_cons_eq_ok_iff.1 h
    obtain ⟨hrecorded, hid⟩ := recorded_of_step hp hstep
    obtain ⟨hrecorded', hid'⟩ := ih hrecorded hrest
    exact ⟨hrecorded', hid'.trans hid⟩

theorem recorded_of_start {id : TraceId} {source : Trace α}
    (h : Progress.start id source = .ok p) : p.tracer.Recorded ∧ p.tracer.id = id := by
  obtain ⟨types, -, rfl⟩ := Progress.start_eq_ok_iff.1 h
  exact ⟨(Tracer.Recorded.empty id).addInputs types, rfl⟩

/-- A forward program has been built up by inputs and calls, whatever the execution transforms
do. -/
theorem recorded_of_forward {id : TraceId} {source : Trace α} {x : Replaced α}
    (h : (r.forward id source).apply s = (.ok x, s')) :
    ∃ t outputs, Tracer.Recorded t ∧ t.id = id ∧ t.finish outputs = .ok x.trace := by
  obtain ⟨p₀, p, fragments, s₁, outputs, hstart, hsteps, -, hfinish, -⟩ := forward_eq_ok h
  obtain ⟨hrecorded, hid⟩ := recorded_of_start hstart
  obtain ⟨hrecorded', hid'⟩ := recorded_of_steps hrecorded hsteps
  exact ⟨p.tracer, outputs, hrecorded', hid'.trans hid, hfinish⟩

end Replacer

end TraceSubstitution
