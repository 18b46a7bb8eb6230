import TraceSubstitution.Proofs.Registry.Kernels
import TraceSubstitution.Proofs.Replacement.Sparing

/-!
# Forward programs are canonical

A forward program is numbered in order. If the execution transforms call kernels only,
its high-level calls are those that no rule admits (`Replacer.spares_of_forward`). So a
forward program of a forward program is the same program again:
`Replacer.forward_canonical`.
-/

namespace TraceSubstitution

variable {α : Type}

/-- Every call that the transform records, outside a capture, is a kernel call of one of the given
operators. -/
def Transform.CallsKernels (T : Transform α) (ops : Set (Operator α)) : Prop :=
  ∀ (args : Operands Symbol) (t t' : Tracer α) (outputs : List Symbol) (calls : List (Node α)),
    t.capture = none → (T args).run.apply t = (.ok outputs, t') → t'.nodes = t.nodes ++ calls →
      ∀ n ∈ calls, ∃ o ∈ ops, n.op = .kernel o

/-- A transform that calls one operator as a kernel records nothing else. -/
theorem Operator.callsKernels_asKernel {ops : Set (Operator α)} {o : Operator α} (ho : o ∈ ops)
    (executor : String) : Transform.CallsKernels (o.asKernel executor).execution ops := by
  intro args t t' outputs calls ht hrun hcalls
  rcases Recipe.run_call_eq_ok_iff.1 hrun with ⟨results, t₁, hcall, hnext⟩ | ⟨e, -, hnext⟩
  · obtain ⟨bound, types, -, -, -, -, rfl⟩ := Tracer.call_eq_ok_iff.1 hcall
    obtain ⟨-, rfl⟩ := Prod.mk.inj hnext
    rw [Tracer.declare_append ht] at hcalls
    obtain rfl := List.append_cancel_left hcalls
    exact fun n hn => ⟨o, ho, List.mem_singleton.1 hn ▸ rfl⟩
  · exact nomatch (Prod.mk.inj hnext).1

/-- A program in the making that is recorded, numbered in order, calls the given operators only, and
whose high-level calls no rule admits. -/
structure Tracer.Settled (r : Replacer α) (ops : Set (Operator α)) (t : Tracer α) : Prop where
  recorded : t.Recorded
  numbered : t.Numbered
  known : ∀ n ∈ t.nodes, n.op.operator ∈ ops
  refused : ∀ n ∈ t.nodes, ∀ o, n.op = .highLevel o → ∀ operands : List (Option Symbol),
    operands.map (·.map Symbol.type) = n.operandTypes t.symbols →
      r.chosenRule o ⟨o.qualifiedName, operands, n.attrs⟩ false = .ok none

namespace Tracer.Settled

variable {r : Replacer α} {ops : Set (Operator α)} {t t' : Tracer α}

theorem start {id : TraceId} {source : Trace α} {p : Progress α}
    (h : Progress.start id source = .ok p) : p.tracer.Settled r ops := by
  have hrecorded := (Replacer.recorded_of_start h).1
  obtain ⟨types, -, rfl⟩ := Progress.start_eq_ok_iff.1 h
  exact ⟨hrecorded, numbered_addInputs_empty id types, fun _ hn => absurd hn List.not_mem_nil,
    fun _ hn => absurd hn List.not_mem_nil⟩

/-- Calls that have been refused stay so when there are more symbols. -/
theorem refused_of_le (h : t.Settled r ops) (hle : t.symbols <+: t'.symbols) :
    ∀ n ∈ t.nodes, ∀ o, n.op = .highLevel o → ∀ operands : List (Option Symbol),
      operands.map (·.map Symbol.type) = n.operandTypes t'.symbols →
        r.chosenRule o ⟨o.qualifiedName, operands, n.attrs⟩ false = .ok none := by
  intro n hn o hop operands htypes
  obtain ⟨operandTypes, outputs, htyped⟩ := h.recorded.typed n hn
  rw [(htyped.mono hle).operandTypes_eq, ← htyped.operandTypes_eq] at htypes
  exact h.refused n hn o hop operands htypes

/-- A call of an operator that no rule admits, with static arguments that are bound already. -/
theorem call (h : t.Settled r ops) (hr : r.TypeDirected) {op : NodeOp α}
    {operands : List (Option Symbol)} {attrs : Attrs} {results : List Symbol}
    (hcall : (Tracer.call op operands attrs).apply t = (.ok results, t'))
    (hop : op.operator ∈ ops)
    (hself : ∀ (types : List (Option TensorType)) bound,
      op.operator.bind types attrs = .ok bound → bound = attrs)
    (hnone : ∀ o, op = .highLevel o →
      r.chosenRule o ⟨o.qualifiedName, operands, attrs⟩ false = .ok none) :
    t'.Settled r ops := by
  have hle := (extends_of_call hcall).symbols
  have hrecorded := h.recorded.call hcall
  have hnumbered := h.numbered.call h.recorded.capture_eq_none hcall
  obtain ⟨bound, types, hbound, hinferred, howned, -, rfl⟩ := call_eq_ok_iff.1 hcall
  obtain rfl := hself _ _ hbound
  rw [declare_append h.recorded.capture_eq_none] at hle hrecorded hnumbered ⊢
  refine ⟨hrecorded, hnumbered, fun n hn => ?_, fun n hn o ho operands' htypes => ?_⟩
  · rcases List.mem_append.1 hn with hn | hn
    · exact h.known n hn
    · exact List.mem_singleton.1 hn ▸ hop
  · rcases List.mem_append.1 hn with hn | hn
    · exact h.refused_of_le hle n hn o ho operands' htypes
    · obtain rfl := List.mem_singleton.1 hn
      rw [(typed_of_owns hbound hinferred howned).operandTypes_eq] at htypes
      have hsame : r.chosenRule o ⟨o.qualifiedName, operands', bound⟩ false =
          r.chosenRule o ⟨o.qualifiedName, operands, bound⟩ false :=
        Replacer.chosenRule_congr hr rfl htypes rfl
      exact hsame.trans (hnone o ho)

/-- A transform that calls kernels only. -/
theorem run (h : t.Settled r ops) {T : Transform α} (hT : T.CallsKernels ops)
    {args : Operands Symbol} {outputs : List Symbol}
    (hrun : (T args).run.apply t = (.ok outputs, t')) : t'.Settled r ops := by
  have hcapture := h.recorded.capture_eq_none
  have hextends := Recipe.extends_of_run hrun
  obtain ⟨calls, hnodes, -⟩ := hextends.nodes
  have hkernels := hT args t t' outputs calls hcapture hrun hnodes
  refine ⟨h.recorded.run hrun, (h.numbered.run hcapture hrun).1, fun n hn => ?_, fun n hn => ?_⟩
  · rcases List.mem_append.1 (hnodes ▸ hn) with hn | hn
    · exact h.known n hn
    · obtain ⟨o, ho, hop⟩ := hkernels n hn
      exact hop ▸ ho
  · rcases List.mem_append.1 (hnodes ▸ hn) with hn | hn
    · exact h.refused_of_le hextends.symbols n hn
    · obtain ⟨o, -, hop⟩ := hkernels n hn
      rw [hop]
      exact nofun

end Tracer.Settled

namespace Replacer

variable {r : Replacer α} {ops : Set (Operator α)} {source : Trace α} {nodes : List (Node α)}
  {p p' : Progress α} {index : Nat} {n : Node α} {s s' : Journaled (Decisions α)}
  {fragment : Fragment α} {fragments : List (Fragment α)}

theorem chosenRule_of_dispatch (hs : s.state.Right r ops) {o : Operator α} (ho : o ∈ ops)
    {args : Operands Symbol} (hargs : args.op = o.qualifiedName) {gradient : Bool}
    {record : DispatchRecord} {rule : Option (Rule α)}
    (h : (r.dispatch index o args gradient).apply s = (.ok (record, rule), s')) :
    r.chosenRule o args gradient = .ok rule := by
  obtain ⟨journal, hdispatch⟩ := apply_dispatch hs ho hargs index gradient
  rw [hdispatch] at h
  cases hrule : r.chosenRule o args gradient with
  | error e =>
    rw [hrule] at h
    exact nomatch (Prod.mk.inj h).1
  | ok rule' =>
    rw [hrule] at h
    obtain ⟨-, rfl⟩ := Prod.mk.inj (Except.ok.inj (Prod.mk.inj h).1)
    rfl

/-- One call of the source: it is recorded again, and then no rule admits it, or the transform of a
rule has been run. -/
theorem settled_of_step (hr : r.TypeDirected)
    (hkernels : ∀ rule ∈ r.registry.rules, Transform.CallsKernels rule.execution ops)
    (hs : s.state.Right r ops) (hn : n.op.operator ∈ ops)
    (hbuilt : n.op.operator.signature.Built)
    (hbound : ∃ types attrs, n.op.operator.bind (types : List (Option TensorType)) attrs =
      .ok n.attrs)
    (h : p.tracer.Settled r ops)
    (hstep : (r.step false p index n).apply s = (.ok (p', fragment), s')) :
    p'.tracer.Settled r ops := by
  have hself : ∀ (types : List (Option TensorType)) bound,
      n.op.operator.bind types n.attrs = .ok bound → bound = n.attrs := by
    obtain ⟨types, attrs, hattrs⟩ := hbound
    intro types' bound hrebound
    exact Signature.bindAttrs_rebind hbuilt (Operator.bind_eq_ok_iff.1 hattrs).2
      (Operator.bind_eq_ok_iff.1 hrebound).2
  cases hop : n.op with
  | kernel o =>
    rw [hop] at hn hself
    rw [apply_step_kernel hop] at hstep
    obtain ⟨-, -, operands, outputs, t, -, hcall, -, rfl⟩ :=
      kernelStep_eq_ok_iff.1 (Prod.mk.inj hstep).1
    exact h.call hr hcall hn hself nofun
  | highLevel o =>
    rw [hop] at hn hself
    obtain ⟨operands, record, rule, -, hdispatch, hdecided⟩ := exists_dispatch_of_step hop hstep
    have hrule := chosenRule_of_dispatch hs hn rfl hdispatch
    obtain ⟨outputs, p₁, hreplacement, -, rfl⟩ := decidedStep_eq_ok_iff.1 hdecided
    obtain ⟨⟨outputs', p₂⟩, houtputs, heq⟩ := bind_eq_ok_iff.1 hreplacement
    obtain ⟨rfl, -, rfl⟩ : outputs' = outputs ∧ ⟨[], []⟩ = fragment ∧ p₂ = p₁ := by
      simpa using heq
    cases rule with
    | none =>
      obtain ⟨t, hcall, rfl⟩ := forwardOutputs_none_eq_ok_iff.1 houtputs
      refine h.call hr hcall hn hself fun o' ho' => ?_
      obtain rfl := NodeOp.highLevel.inj ho'
      exact hrule
    | some rule =>
      obtain ⟨t, hrun, -, rfl⟩ := forwardOutputs_some_eq_ok_iff.1 houtputs
      obtain ⟨earlier, later, hcandidates, -, -⟩ := firstAdmitting_eq_some_iff.1 hrule
      have hmem := hcandidates ▸ List.mem_append_right earlier List.mem_cons_self
      exact h.run (hkernels rule (Registry.mem_of_mem_candidateRules hmem).1) hrun

theorem settled_of_steps (hr : r.TypeDirected) (hids : Set.InjOn Operator.id ops)
    (hkernels : ∀ rule ∈ r.registry.rules, Transform.CallsKernels rule.execution ops)
    (hs : s.state.Right r ops) (hops : ∀ n ∈ nodes, n.op.operator ∈ ops)
    {symbols : List TensorType} (htypable : Typable symbols nodes) (h : p.tracer.Settled r ops)
    (hsteps : (r.steps false p index nodes).apply s = (.ok (p', fragments), s')) :
    p'.tracer.Settled r ops := by
  induction nodes generalizing p index s fragments with
  | nil =>
    obtain ⟨rfl, -⟩ := Prod.mk.inj (Except.ok.inj (Prod.mk.inj hsteps).1)
    exact h
  | cons n nodes ih =>
    obtain ⟨hn, hops⟩ := List.forall_mem_cons.1 hops
    obtain ⟨⟨⟨operandTypes, declared, htyped⟩, hbuilt⟩, htypable⟩ := List.forall_mem_cons.1 htypable
    obtain ⟨p₁, fragment, s₁, rest, hstep, hrest, -⟩ := steps_cons_eq_ok_iff.1 hsteps
    have hright := right_step hr hids hs hn false p index
    rw [hstep] at hright
    exact ih hright hops htypable
      (settled_of_step hr hkernels hs hn hbuilt ⟨operandTypes, htyped.bound⟩ h hstep) hrest

/-- A forward program is numbered in order, and no rule admits a call of it. -/
theorem spares_of_forward (hr : r.TypeDirected) (hids : Set.InjOn Operator.id ops)
    (hkernels : ∀ rule ∈ r.registry.rules, Transform.CallsKernels rule.execution ops)
    (hs : s.state.Right r ops) (hsource : source.Recorded)
    (hops : ∀ n ∈ source.nodes, n.op.operator ∈ ops)
    (hbuilt : ∀ n ∈ source.nodes, n.op.operator.signature.Built) {id : TraceId} {x : Replaced α}
    (h : (r.forward id source).apply s = (.ok x, s')) :
    x.trace.Recorded ∧ x.trace.Numbered ∧ r.Spares x.trace ∧
      ∀ n ∈ x.trace.nodes, n.op.operator ∈ ops := by
  obtain ⟨p₀, p, fragments, s₁, outputs, hstart, hsteps, -, hfinish, -⟩ := forward_eq_ok h
  have hsettled := settled_of_steps hr hids hkernels hs hops (typable hsource hbuilt)
    (Tracer.Settled.start hstart) hsteps
  refine ⟨⟨p.tracer, outputs, hsettled.recorded, hfinish⟩,
    Tracer.numbered_of_finish hsettled.numbered hfinish, ?_⟩
  obtain ⟨-, -, hx⟩ := Tracer.finish_eq_ok_iff.1 hfinish
  rw [hx]
  exact ⟨fun n hn o hop operands htypes =>
    firstAdmitting_eq_none_iff.1 (hsettled.refused n hn o hop operands htypes), hsettled.known⟩

variable [Scalar α]

/-- What is remembered after any history is right. -/
theorem right_after (hr : r.TypeDirected) (hids : Set.InjOn Operator.id ops)
    {history : List (Request α)}
    (hhistory : ∀ q ∈ history, ∀ n ∈ q.source.nodes, n.op.operator ∈ ops) :
    (r.after history).state.Right r ops :=
  (decides_from hr hids hhistory (Decisions.right_empty _) (List.Subset.refl _)).2

/-- A forward program of a forward program is the same program, whatever the replacer has been asked
for before; and if no rule admits a call of the source, the forward program is the source, with
the inputs and then the outputs of all calls numbered in order. -/
theorem forward_canonical (hr : r.TypeDirected) (hids : Set.InjOn Operator.id ops)
    (hproper : ∀ o ∈ ops, o.signature.Proper)
    (hkernels : ∀ rule ∈ r.registry.rules, Transform.CallsKernels rule.execution ops)
    (hsource : source.Recorded) (hops : ∀ n ∈ source.nodes, n.op.operator ∈ ops)
    {history : List (Request α)}
    (hhistory : ∀ q ∈ history, ∀ n ∈ q.source.nodes, n.op.operator ∈ ops) :
    (∀ id x s', (r.forward id source).apply (r.after history) = (.ok x, s') →
      ∀ later : List (Request α), (∀ q ∈ later, ∀ n ∈ q.source.nodes, n.op.operator ∈ ops) →
        ∀ id', ∃ y s'', (r.forward id' x.trace).apply (r.after later) = (.ok y, s'') ∧
          y.trace = { x.trace with id := id' } ∧ y.trace.text = x.trace.text) ∧
    (r.Spares source → ∀ id, ∃ x s',
      (r.forward id source).apply (r.after history) = (.ok x, s') ∧
        x.trace = source.numbered id) := by
  have hright := right_after hr hids hhistory
  refine ⟨fun id x s' h later hlater id' => ?_, fun hspares id => ?_⟩
  · obtain ⟨hrecorded, hnumbered, hspares, hknown⟩ := spares_of_forward hr hids hkernels hright
      hsource hops (fun n hn => (hproper _ (hops n hn)).built) h
    obtain ⟨y, s'', hagain, hy⟩ := forward_of_spares hr hids (right_after hr hids hlater) hrecorded
      (fun n hn => ⟨hknown n hn, hproper _ (hknown n hn)⟩) hspares id'
    rw [hnumbered.numbered_eq hrecorded.closed] at hy
    exact ⟨y, s'', hagain, hy, by rw [hy]; rfl⟩
  · exact forward_of_spares hr hids hright hsource
      (fun n hn => ⟨hops n hn, hproper _ (hops n hn)⟩) hspares id

/-- The program that doubles its first input and then adds the second one, which is declared after
the first call. -/
def interleaved : Trace Float32 where
  id := ⟨0⟩
  symbols := [oneNumber, oneNumber, oneNumber, oneNumber]
  inputs := [⟨0⟩, ⟨2⟩]
  nodes := [⟨.highLevel Core.add, [some ⟨0⟩, some ⟨0⟩], .empty, [⟨1⟩]⟩,
    ⟨.highLevel Core.add, [some ⟨1⟩, some ⟨2⟩], .empty, [⟨3⟩]⟩]
  outputs := [⟨3⟩]

theorem recorded_interleaved : interleaved.Recorded := by
  have hinput : Tracer.Recorded ((Tracer.empty ⟨0⟩ : Tracer Float32).input oneNumber).2 :=
    .input oneNumber (.empty ⟨0⟩)
  have hcall : (Tracer.call (.highLevel Core.add)
      [some ⟨⟨0⟩, ⟨0⟩, oneNumber⟩, some ⟨⟨0⟩, ⟨0⟩, oneNumber⟩] .empty).apply
        ((Tracer.empty ⟨0⟩ : Tracer Float32).input oneNumber).2 = (.ok [⟨⟨0⟩, ⟨1⟩, oneNumber⟩],
          ⟨⟨0⟩, [oneNumber, oneNumber], [⟨0⟩], interleaved.nodes.take 1, none⟩) := rfl
  have hcall' : (Tracer.call (.highLevel Core.add)
      [some ⟨⟨0⟩, ⟨1⟩, oneNumber⟩, some ⟨⟨0⟩, ⟨2⟩, oneNumber⟩] .empty).apply
        (Tracer.input ⟨⟨0⟩, [oneNumber, oneNumber], [⟨0⟩], interleaved.nodes.take 1, none⟩
          oneNumber).2 = (.ok [⟨⟨0⟩, ⟨3⟩, oneNumber⟩],
        ⟨⟨0⟩, interleaved.symbols, interleaved.inputs, interleaved.nodes, none⟩) := rfl
  exact ⟨_, [⟨⟨0⟩, ⟨3⟩, oneNumber⟩], ((hinput.call hcall).input oneNumber).call hcall', rfl⟩

/-- With a rule for additions the forward program calls kernels, and its own forward program is the
same. Without rules the second input moves in front of the calls. -/
theorem forward_canonical_interleaved :
    (∃ x s' y s'', (ofAdd.forward ⟨1⟩ interleaved).apply (ofAdd.after []) = (.ok x, s') ∧
      x.trace.nodes.map (·.op.isHighLevel) = [false, false] ∧
      (ofAdd.forward ⟨2⟩ x.trace).apply (ofAdd.after [⟨false, ⟨1⟩, interleaved⟩]) = (.ok y, s'') ∧
      y.trace = { x.trace with id := ⟨2⟩ } ∧ y.trace.text = x.trace.text) ∧
    ∃ (r : Replacer Float32) (x : Replaced Float32) (s' : Journaled (Decisions Float32)),
      (r.forward ⟨1⟩ interleaved).apply (r.after []) = (.ok x, s') ∧
        x.trace = interleaved.numbered ⟨1⟩ ∧ x.trace.inputs = [⟨0⟩, ⟨1⟩] ∧
          x.trace.nodes.map (·.outputs) = [[⟨2⟩], [⟨3⟩]] := by
  have hids : Set.InjOn Operator.id ({Core.add} : Set (Operator Float32)) := Set.injOn_singleton _ _
  have hproper : ∀ o ∈ ({Core.add} : Set (Operator Float32)), o.signature.Proper := by
    rintro o rfl
    exact ⟨.tensor _ (.tensor _ .empty), List.nodup_nil, nofun⟩
  have hnone : ∀ q ∈ ([] : List (Request Float32)), ∀ n ∈ q.source.nodes,
      n.op.operator ∈ ({Core.add} : Set (Operator Float32)) :=
    fun q hq => absurd hq List.not_mem_nil
  have hops : ∀ n ∈ interleaved.nodes, n.op.operator ∈ ({Core.add} : Set (Operator Float32)) := by
    intro n hn
    rcases List.mem_pair.1 hn with rfl | rfl <;> rfl
  refine ⟨?_, ?_⟩
  · have hkernels : ∀ rule ∈ ofAdd.registry.rules,
        Transform.CallsKernels rule.execution ({Core.add} : Set (Operator Float32)) := by
      intro rule hrule
      obtain rfl := List.mem_singleton.1 hrule
      exact Operator.callsKernels_asKernel (Set.mem_singleton Core.add) "kernels"
    obtain ⟨x, s', hfirst, hkernel⟩ : ∃ x s',
        (ofAdd.forward ⟨1⟩ interleaved).apply (ofAdd.after []) = (.ok x, s') ∧
          x.trace.nodes.map (·.op.isHighLevel) = [false, false] := ⟨_, _, rfl, rfl⟩
    have hlater : ∀ q ∈ [(⟨false, ⟨1⟩, interleaved⟩ : Request Float32)], ∀ n ∈ q.source.nodes,
        n.op.operator ∈ ({Core.add} : Set (Operator Float32)) := by
      intro q hq
      rw [List.mem_singleton.1 hq]
      exact hops
    obtain ⟨y, s'', hagain, hsame, htext⟩ :=
      (forward_canonical (typeDirected_ofKernels _ _ : ofAdd.TypeDirected) hids hproper hkernels
        recorded_interleaved hops hnone).1
        ⟨1⟩ x s' hfirst _ hlater ⟨2⟩
    exact ⟨x, s', y, s'', hfirst, hkernel, hagain, hsame, htext⟩
  · let r : Replacer Float32 := ⟨.ofKernels [], ⟨none, 1⟩⟩
    have hrules : r.registry.rules = [] := rfl
    have hspares : r.Spares interleaved := by
      intro n _ o _ operands _ rule hrule
      exact absurd (Registry.mem_of_mem_candidateRules hrule).1 (hrules ▸ List.not_mem_nil)
    obtain ⟨x, s', hforward, hx⟩ :=
      (forward_canonical (typeDirected_ofKernels _ _ : r.TypeDirected) hids hproper
        (fun rule hrule => absurd hrule List.not_mem_nil) recorded_interleaved hops hnone).2
        hspares ⟨1⟩
    exact ⟨r, x, s', hforward, hx, by rw [hx]; rfl, by rw [hx]; rfl⟩

end Replacer

end TraceSubstitution
