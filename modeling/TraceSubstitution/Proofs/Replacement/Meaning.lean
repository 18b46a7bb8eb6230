import TraceSubstitution.Proofs.Core
import TraceSubstitution.Proofs.Registry.Sound
import TraceSubstitution.Proofs.Replacement.History
import TraceSubstitution.Proofs.Trace.Recorded

/-!
# Forward programs compute what their sources compute

While calls are replaced, what stands for a symbol of the source has a value with
the same contents (`Progress.Simulates`). A kernel call and a call that nothing
replaces keep this up because a call depends on contents only, and a call that a
rule replaces does if the rule is sound. So a forward program runs on all inputs
on which its source runs, with outputs of the same contents:
`Replacer.execute_forward`.
-/

namespace TraceSubstitution

variable {α : Type}

/-- Operators that are told apart by their numbers, and sound rules for them whose checkers look at
names, types and static arguments only. -/
structure Replacer.SoundOver (r : Replacer α) (ops : Set (Operator α)) : Prop where
  ids : Set.InjOn Operator.id ops
  built : ∀ o ∈ ops, o.signature.Built
  targets : ∀ rule ∈ r.registry.rules, rule.target ∈ ops
  typeDirected : r.TypeDirected
  sound : ∀ rule ∈ r.registry.rules, rule.Sound

/-- What stands for a symbol of the source has a value with the same contents. -/
structure Progress.Simulates (p : Progress α) (source target : SymbolMap (Tensor α)) : Prop where
  recording : p.tracer.capture = none
  related : SymbolMap.Related (p.tracer.Stands target) p.symbols source

namespace Progress.Simulates

variable {p : Progress α} {source target : SymbolMap (Tensor α)} {n : Node α}

/-- The outputs of a call of the source may be bound to whatever yields them. -/
theorem bindOutputs (h : p.Simulates source target) {t' : Tracer α} (hext : p.tracer.Extends t')
    {results : List Symbol} {outs : List (Tensor α)}
    (hyields : p.tracer.Yields t' target results outs) (ids : List SymbolId) (report : Report) :
    ∃ target', Trace.evalNodes true (t'.nodes.drop p.tracer.nodes.length) target = .ok target' ∧
      Simulates ⟨t', p.symbols.insertAll ids results, report⟩ (source.insertAll ids outs)
        target' := by
  obtain ⟨target', hrun, hstands⟩ := hyields
  refine ⟨target', hrun, ?_, ?_⟩
  · have hsome := hext.capture
    rw [h.recording] at hsome
    exact Option.isNone_iff_eq_none.1 (Option.isSome_eq_false_iff.1 hsome)
  · have hbefore := h.related.mono fun s x hs => hs.extend hext hrun
    exact hbefore.insertAll hstands ids

/-- The operands of a call of the source, as they are read on both sides. -/
theorem operands (h : p.Simulates source target) {operands : List (Option Symbol)}
    {xs : List (Option (Tensor α))} (hoperands : p.operandsFor n = .ok operands)
    (hxs : n.inputs.map (·.map source.get?) = xs.map (·.map some)) :
    List.Forall₂ (Option.Rel (p.tracer.Stands target)) operands xs :=
  h.related.reads (Progress.operandsFor_eq_ok_iff.1 hoperands) hxs

/-- A call that is recorded again, as a kernel or not, yields what it yields in the source. -/
theorem yields_of_call (h : p.Simulates source target) {op : NodeOp α} {raw : Attrs}
    (hbuilt : op.operator.signature.Built)
    (hattrs : op.operator.signature.bindAttrs op.operator.qualifiedName raw = .ok n.attrs)
    {operands : List (Option Symbol)} {xs : List (Option (Tensor α))} {outs : List (Tensor α)}
    (hstands : List.Forall₂ (Option.Rel (p.tracer.Stands target)) operands xs)
    (hrun : op.operator.executeVerified xs n.attrs = .ok outs) {results : List Symbol}
    {t' : Tracer α} (hcall : (Tracer.call op operands n.attrs).apply p.tracer = (.ok results, t')) :
    p.tracer.Yields t' target results outs := by
  obtain ⟨htypes, -, ys, hreads, hcontents⟩ := Tracer.reads_of_stands hstands
  have hys : operands.map (·.map Symbol.type) = ys.map (·.map Tensor.type) := by
    rw [htypes]
    exact (map_congr_of_contents (fun _ _ => Tensor.type_eq_of_contents) hcontents).symm
  rw [← Operator.executeVerified_congr hcontents] at hrun
  exact Tracer.yields_of_call h.recording hbuilt hattrs hcall hys hreads hrun

/-- A call that a sound rule replaces yields what it yields in the source. -/
theorem yields_of_rule (h : p.Simulates source target) {rule : Rule α} (hsound : rule.Sound)
    {raw : Attrs} (hattrs : rule.target.signature.bindAttrs rule.target.qualifiedName raw =
      .ok n.attrs) {operands : List (Option Symbol)} {xs : List (Option (Tensor α))}
    {outs : List (Tensor α)}
    (hstands : List.Forall₂ (Option.Rel (p.tracer.Stands target)) operands xs)
    (hrun : rule.target.executeVerified xs n.attrs = .ok outs)
    (hadmits : rule.admits ⟨rule.target.qualifiedName, operands, n.attrs⟩ = .ok true)
    {results : List Symbol} {t' : Tracer α}
    (hexecution : (rule.execution ⟨rule.target.qualifiedName, operands, n.attrs⟩).run.apply
      p.tracer = (.ok results, t')) : p.tracer.Yields t' target results outs := by
  obtain ⟨htypes, howned, ys, hreads, hcontents⟩ := Tracer.reads_of_stands hstands
  rw [← Operator.executeVerified_congr hcontents] at hrun
  -- soundness speaks of the values of the operands alone, so the others are taken away first
  set ids : List SymbolId := operands.flatMap fun s => (s.map Symbol.id).toList with hids
  have hmem : ∀ id, id ∈ ids ↔ some id ∈ operands.map (·.map Symbol.id) := by
    intro id
    rw [hids, List.mem_flatMap, List.mem_map]
    simp only [Option.mem_toList]
  have hcall : ConcreteCall rule.target p.tracer ⟨rule.target.qualifiedName, operands, n.attrs⟩
      (target.restrict ids) ys := {
    recording := h.recording
    name := rfl
    owned := howned
    bound := ⟨raw, hattrs⟩
    types := by
      rw [show operands.map (·.map Symbol.type) = _ from htypes]
      exact (map_congr_of_contents (fun _ _ => Tensor.type_eq_of_contents) hcontents).symm
    reads := by
      rw [← hreads]
      apply List.map_congr_left
      intro x hx
      cases x with
      | none => rfl
      | some id => simp [SymbolMap.get?_restrict, (hmem id).2 hx]
    only := by
      intro id x hx
      rw [SymbolMap.get?_restrict] at hx
      split at hx
      · next hid => exact (hmem id).1 hid
      · exact nomatch hx }
  exact (hsound _ _ _ _ _ _ _ hcall hadmits hrun hexecution).within
    (SymbolMap.restrict_within target ids)

/-- One call of the source, whatever becomes of it. -/
theorem plainStep (h : p.Simulates source target) {r : Replacer α} {ops : Set (Operator α)}
    (hr : r.SoundOver ops) (hn : n.op.operator ∈ ops)
    (hattrs : ∃ raw, n.op.operator.signature.bindAttrs n.op.operator.qualifiedName raw =
      .ok n.attrs) {index : Nat} {p' : Progress α} {fragment : Fragment α}
    (hstep : r.plainStep false p index n = .ok (p', fragment)) {source' : SymbolMap (Tensor α)}
    (hrun : Trace.evalNode true source n = .ok source') :
    p.tracer.Extends p'.tracer ∧ ∃ target',
      Trace.evalNodes true (p'.tracer.nodes.drop p.tracer.nodes.length) target = .ok target' ∧
        p'.Simulates source' target' := by
  obtain ⟨raw, hraw⟩ := hattrs
  obtain ⟨xs, outs, hxs, hcompute, rfl⟩ := Trace.evalNode_eq_ok_iff.1 hrun
  obtain ⟨hexecute, -⟩ := Trace.computeNode_eq_ok_iff.1 hcompute
  have hbuilt := hr.built n.op.operator hn
  unfold Replacer.plainStep at hstep
  cases hop : n.op with
  | kernel o =>
    rw [hop] at hstep hraw hexecute hbuilt
    obtain ⟨-, -, operands, results, t, hoperands, hcall, -, rfl⟩ :=
      Replacer.kernelStep_eq_ok_iff.1 hstep
    have hyields := h.yields_of_call hbuilt hraw (h.operands hoperands hxs) hexecute hcall
    exact ⟨Tracer.extends_of_call hcall,
      h.bindOutputs (Tracer.extends_of_call hcall) hyields n.outputs p.report⟩
  | highLevel o =>
    rw [hop] at hstep hraw hexecute hbuilt hn
    obtain ⟨operands, hoperands, hstep⟩ := bind_eq_ok_iff.1 hstep
    obtain ⟨rule, hrule, hstep⟩ := bind_eq_ok_iff.1 hstep
    obtain ⟨results, p₁, hreplacement, -, rfl⟩ := Replacer.decidedStep_eq_ok_iff.1 hstep
    obtain ⟨⟨_, _⟩, houtputs, heq⟩ := bind_eq_ok_iff.1 hreplacement
    obtain ⟨rfl, -, rfl⟩ : _ = results ∧ _ ∧ _ = p₁ := by simpa using heq
    cases rule with
    | none =>
      obtain ⟨t, hcall, rfl⟩ := Replacer.forwardOutputs_none_eq_ok_iff.1 houtputs
      have hyields := h.yields_of_call hbuilt hraw (h.operands hoperands hxs) hexecute hcall
      exact ⟨Tracer.extends_of_call hcall,
        h.bindOutputs (Tracer.extends_of_call hcall) hyields n.outputs _⟩
    | some rule =>
      obtain ⟨t, hexecution, -, rfl⟩ := Replacer.forwardOutputs_some_eq_ok_iff.1 houtputs
      have hchosen := mapError_eq_ok_iff.1 hrule
      obtain ⟨earlier, later, hcandidates, hadmits, -⟩ :=
        Replacer.firstAdmitting_eq_some_iff.1 hchosen
      have hmem : rule ∈ r.registry.candidateRules o r.options.executors false := by
        rw [hcandidates]
        exact List.mem_append_right earlier List.mem_cons_self
      obtain ⟨hrules, happlies⟩ := Registry.mem_of_mem_candidateRules hmem
      have hid : rule.target.id = o.id := by simpa [Registry.applies] using happlies
      obtain rfl : rule.target = o := hr.ids (hr.targets rule hrules) hn hid
      have hyields := h.yields_of_rule (hr.sound rule hrules) hraw (h.operands hoperands hxs)
        hexecute hadmits hexecution
      exact ⟨Recipe.extends_of_run hexecution,
        h.bindOutputs (Recipe.extends_of_run hexecution) hyields n.outputs _⟩

/-- All calls of the source. -/
theorem plainSteps {r : Replacer α} {ops : Set (Operator α)} (hr : r.SoundOver ops)
    {nodes : List (Node α)} (hnodes : ∀ n ∈ nodes, n.op.operator ∈ ops)
    (hattrs : ∀ n ∈ nodes, ∃ raw,
      n.op.operator.signature.bindAttrs n.op.operator.qualifiedName raw = .ok n.attrs)
    (h : p.Simulates source target) {index : Nat} {p' : Progress α}
    {fragments : List (Fragment α)}
    (hsteps : r.plainSteps false p index nodes = .ok (p', fragments))
    {source' : SymbolMap (Tensor α)} (hrun : Trace.evalNodes true nodes source = .ok source') :
    p.tracer.Extends p'.tracer ∧ ∃ target',
      Trace.evalNodes true (p'.tracer.nodes.drop p.tracer.nodes.length) target = .ok target' ∧
        p'.Simulates source' target' := by
  induction nodes generalizing p source target index fragments with
  | nil =>
    obtain ⟨rfl, -⟩ := Prod.mk.inj (Except.ok.inj hsteps)
    obtain rfl : source = source' := by simpa using hrun
    exact ⟨.refl p.tracer, target, by simp, h⟩
  | cons n nodes ih =>
    obtain ⟨hn, hnodes⟩ := List.forall_mem_cons.1 hnodes
    obtain ⟨hbound, hattrs⟩ := List.forall_mem_cons.1 hattrs
    obtain ⟨⟨p₁, fragment⟩, hstep, hsteps⟩ := bind_eq_ok_iff.1 hsteps
    obtain ⟨⟨p₂, more⟩, hrest, heq⟩ := bind_eq_ok_iff.1 hsteps
    obtain ⟨rfl, -⟩ := Prod.mk.inj (Except.ok.inj heq)
    obtain ⟨source₁, hfirst, hothers⟩ := bind_eq_ok_iff.1 hrun
    obtain ⟨hext, target₁, hrun₁, h₁⟩ := h.plainStep hr hn hbound hstep hfirst
    obtain ⟨hext', target₂, hrun₂, h₂⟩ := ih hnodes hattrs h₁ hrest hothers
    refine ⟨hext.trans hext', target₂, ?_, h₂⟩
    rw [hext'.nodes_eq, List.drop_append_of_le_length hext.length_nodes_le, Trace.evalNodes_append,
      hrun₁]
    exact hrun₂

/-- At the beginning the inputs of the source and of the new program have the same values. -/
theorem start {id : TraceId} {trace : Trace α} {p : Progress α}
    (hstart : Progress.start id trace = .ok p) {tensors : List (Tensor α)}
    (htypes : trace.inputs.map trace.typeOf? = tensors.map (some ·.type)) :
    p.tracer.nodes = [] ∧
      p.tracer.inputs.map (fun id => p.tracer.symbols[id.index]?) = tensors.map (some ·.type) ∧
        p.Simulates (SymbolMap.empty.insertAll trace.inputs tensors)
          (SymbolMap.empty.insertAll p.tracer.inputs tensors) := by
  obtain ⟨types, hdeclared, rfl⟩ := Progress.start_eq_ok_iff.1 hstart
  have hsome : tensors.map (fun x => some x.type) = (tensors.map Tensor.type).map some :=
    List.map_map.symm
  obtain rfl : types = tensors.map Tensor.type :=
    List.map_injective_iff.2 (Option.some_injective _) (hdeclared.symm.trans (htypes.trans hsome))
  refine ⟨rfl, ?_, rfl, ?_⟩
  · rw [hsome, ← Tracer.map_getElem?_fresh]
    exact List.map_map
  · refine SymbolMap.related_empty.insertAll (Tracer.stands_of_values ?_ ?_ ?_) trace.inputs
    · intro s hs
      obtain ⟨i, hi, htrace, hid⟩ := Tracer.mem_fresh.1 hs
      rw [Tracer.owns_iff, hid]
      exact ⟨htrace, by simpa [Tracer.addInputs, Tracer.empty] using hi⟩
    · rw [Tracer.map_type_fresh]
    · exact SymbolMap.map_get?_insertAll (Tracer.nodup_map_id_fresh _) (by simp) SymbolMap.empty

end Progress.Simulates

namespace Replacer

/-- A forward program runs on all inputs on which its source runs, whatever the replacer has done
before, and its outputs have the types and the elements of those of the source. -/
theorem execute_forward [Scalar α] {r : Replacer α} {ops : Set (Operator α)}
    (hr : r.SoundOver ops) (history : List (Request α))
    (hhistory : ∀ q ∈ history, ∀ n ∈ q.source.nodes, n.op.operator ∈ ops) {source : Trace α}
    (hsource : source.Recorded) (hops : ∀ n ∈ source.nodes, n.op.operator ∈ ops) {id : TraceId}
    {replaced : Replaced α}
    (hforward : ((r.forward id source).apply (r.after history)).1 = .ok replaced)
    {tensors outs : List (Tensor α)} (hrun : source.execute tensors true = .ok outs) :
    ∃ outs', replaced.trace.execute tensors true = .ok outs' ∧
      outs'.map Tensor.contents = outs.map Tensor.contents := by
  have hstart : r.start.state.Right r ops := Decisions.right_empty _
  have hkeys : r.start.state.keys ⊆ [] := List.Subset.refl []
  have hright : (r.after history).state.Right r ops :=
    (decides_from hr.typeDirected hr.ids hhistory hstart hkeys).2
  have hanswer : r.plainAnswer ⟨false, id, source⟩ = .ok replaced.plain := by
    rw [← (plain_answer hr.typeDirected hr.ids hright hops).1]
    exact congrArg (·.map Replaced.plain) hforward
  obtain ⟨p₀, hp₀, hanswer⟩ := bind_eq_ok_iff.1 hanswer
  obtain ⟨⟨p, fragments⟩, hsteps, hanswer⟩ := bind_eq_ok_iff.1 hanswer
  obtain ⟨trace, hconclude, heq⟩ := bind_eq_ok_iff.1 hanswer
  obtain ⟨outputs, houtputs, hfinish⟩ := bind_eq_ok_iff.1 hconclude
  obtain ⟨-, -, htrace⟩ := Tracer.finish_eq_ok_iff.1 hfinish
  obtain rfl : trace = replaced.trace := congrArg Replaced.trace (Except.ok.inj heq)
  obtain ⟨values, htypes, hnodes, houts⟩ := Trace.execute_eq_ok_iff.1 hrun
  obtain ⟨hempty, hinputs, hsim⟩ := Progress.Simulates.start hp₀ htypes
  have hattrs : ∀ n ∈ source.nodes, ∃ raw,
      n.op.operator.signature.bindAttrs n.op.operator.qualifiedName raw = .ok n.attrs := by
    intro n hn
    obtain ⟨_, _, htyped⟩ := hsource.typed n hn
    obtain ⟨raw, hraw⟩ := htyped.bound
    exact ⟨raw, (Operator.bind_eq_ok_iff.1 hraw).2⟩
  obtain ⟨hext, target, htarget, hsim'⟩ := hsim.plainSteps hr hops hattrs hsteps hnodes
  have hstands := hsim'.related.values (Progress.symbolsFor_eq_ok_iff.1 houtputs)
    (Trace.outputValues_eq_ok_iff.1 houts)
  obtain ⟨outs', hvalues, hcontents⟩ := Tracer.values_of_stands hstands
  rw [htrace]
  refine ⟨outs', Trace.execute_eq_ok_iff.2 ⟨target, ?_, ?_, ?_⟩, hcontents⟩
  · have hsome : tensors.map (fun x => some x.type) = (tensors.map Tensor.type).map some :=
      List.map_map.symm
    rw [hsome] at hinputs ⊢
    rw [← hext.inputs] at hinputs
    exact Node.map_getElem?_of_le hext.symbols hinputs
  · rw [hempty, List.length_nil, List.drop_zero, ← hext.inputs] at htarget
    exact htarget
  · exact Trace.outputValues_eq_ok_iff.2 hvalues

/-- Rules that call their targets as kernels are sound. -/
theorem soundOver_ofKernels {ops : List (Operator α)}
    (hids : Set.InjOn Operator.id {o | o ∈ ops}) (hbuilt : ∀ o ∈ ops, o.signature.Built)
    (options : ReplacerOptions) : SoundOver ⟨.ofKernels ops, options⟩ {o | o ∈ ops} where
  ids := hids
  built := hbuilt
  targets rule hrule := by
    rw [Registry.rules_ofKernels] at hrule
    obtain ⟨o, ho, rfl⟩ := List.mem_map.1 hrule
    exact ho
  typeDirected := typeDirected_ofKernels ops options
  sound rule hrule := by
    rw [Registry.rules_ofKernels] at hrule
    obtain ⟨o, ho, rfl⟩ := List.mem_map.1 hrule
    exact Operator.sound_asKernel (hbuilt o ho) "kernels"

theorem soundOver_ofAdd : ofAdd.SoundOver {o | o ∈ [Core.add]} := by
  refine soundOver_ofKernels ?_ ?_ _
  · intro o ho o' ho' _
    rw [List.mem_singleton.1 ho, List.mem_singleton.1 ho']
  · intro o ho
    rw [List.mem_singleton.1 ho]
    exact .tensor "rhs" (.tensor "lhs" .empty)

/-- The doubling program runs on every tensor of its input type. -/
theorem execute_doubling {x : Tensor Float32} (h : x.type = oneNumber) :
    ∃ sum, doubling.execute [x] true = .ok [sum] := by
  obtain ⟨sum, hsum⟩ := Core.executeVerified_add (rfl : x.type = x.type)
  set start : SymbolMap (Tensor Float32) := SymbolMap.empty.insertAll [⟨0⟩] [x] with hstart
  have hcompute : Trace.computeNode true
      ⟨.highLevel Core.add, [some ⟨0⟩, some ⟨0⟩], .empty, [⟨1⟩]⟩ [some x, some x] = .ok [sum] :=
    Trace.computeNode_eq_ok_iff.2 ⟨hsum, rfl⟩
  have hnode : Trace.evalNode true start
      ⟨.highLevel Core.add, [some ⟨0⟩, some ⟨0⟩], .empty, [⟨1⟩]⟩ =
        .ok (start.insertAll [⟨1⟩] [sum]) :=
    Trace.evalNode_eq_ok_iff.2 ⟨[some x, some x], [sum], rfl, hcompute, rfl⟩
  have hnodes : Trace.evalNodes true doubling.nodes start = .ok (start.insertAll [⟨1⟩] [sum]) := by
    rw [doubling, Trace.evalNodes_cons, hnode]
    rfl
  exact ⟨sum, Trace.execute_eq_ok_iff.2
    ⟨_, congrArg (fun type => [some type]) h.symm, hnodes, rfl⟩⟩

/-- The program that takes the place of the doubling program runs on the number one. -/
theorem execute_forward_doubling :
    ∃ replaced outs outs', ∃ one : Tensor Float32,
      ((ofAdd.forward ⟨2⟩ doubling).apply (ofAdd.after [askDoubling 1])).1 = .ok replaced ∧
        replaced.trace.nodes.map (·.op.isHighLevel) = [false] ∧
          doubling.execute [one] true = .ok outs ∧
            replaced.trace.execute [one] true = .ok outs' ∧
              outs'.map Tensor.contents = outs.map Tensor.contents := by
  set one : Tensor Float32 := .dense oneNumber #[1] rfl with hone
  obtain ⟨sum, hrun⟩ := execute_doubling (rfl : one.type = oneNumber)
  obtain ⟨replaced, hforward, hkernel⟩ : ∃ replaced,
      ((ofAdd.forward ⟨2⟩ doubling).apply (ofAdd.after [askDoubling 1])).1 = .ok replaced ∧
        replaced.trace.nodes.map (·.op.isHighLevel) = [false] := ⟨_, rfl, rfl⟩
  have hops : ∀ q ∈ [askDoubling 2, askDoubling 1], ∀ n ∈ q.source.nodes,
      n.op.operator ∈ {o | o ∈ [Core.add]} := by
    intro q hq n hn
    exact List.mem_singleton.2 (operator_askDoubling q hq n hn)
  obtain ⟨hask, hhistory⟩ := List.forall_mem_cons.1 hops
  obtain ⟨outs', hrun', hcontents⟩ := execute_forward soundOver_ofAdd [askDoubling 1] hhistory
    recorded_doubling hask hforward hrun
  exact ⟨replaced, [sum], outs', one, hforward, hkernel, hrun, hrun', hcontents⟩

end Replacer

end TraceSubstitution
