import TraceSubstitution.Proofs.Attention.Calls
import TraceSubstitution.Proofs.Flash.Registry
import TraceSubstitution.Proofs.Gradient.Build
import TraceSubstitution.Proofs.Replacement.Plain
import TraceSubstitution.Proofs.Replacement.Tracking

/-!
# What becomes of additions and attention

A `Flash.Turn` is a call of the source with the call that takes its place. Either
the call is recorded again (`Turn.Kept`), or `flash_fwd` takes its place
(`Turn.Fused`). With gradients a turn leaves a fragment behind, and `Turn.Gives`
says which calls the fragment becomes when it is replayed: a fused turn gives one
call of `flash_bwd`.
-/

namespace TraceSubstitution

namespace Flash

open Tracer

/-- What became of a call of the source. -/
structure Turn (α : Type) where
  /-- The call of the source. -/
  call : Node α
  /-- What is reported about it. -/
  record : DispatchRecord
  /-- The call of the new program that takes its place. -/
  node : Node α

namespace Turn

variable {α : Type}

/-- The outputs that stand for nothing in the source. -/
def hidden (τ : Turn α) : List SymbolId := τ.node.outputs.tail

/-- Whether an executor replaced the call. -/
def fused (τ : Turn α) : Bool := τ.record.outcome.isSubstituted

/-- The call is recorded again. -/
structure Kept (τ : Turn α) : Prop where
  outcome : τ.record.outcome = .fallback
  op : τ.node.op = τ.call.op
  attrs : τ.node.attrs = τ.call.attrs
  outputs : ∃ output, τ.node.outputs = [output]

theorem Kept.fused_eq {τ : Turn α} (h : τ.Kept) : τ.fused = false := by
  unfold fused
  rw [h.outcome]
  rfl

end Turn

variable {α : Type} [Scalar α]

/-- On tensors of the types that the call has in the source, the reference implementation of
attention finds the given causal flag and scale. -/
def Poses (symbols : List TensorType) (n : Node α) (causal : Bool) (scale : Float) : Prop :=
  ∀ operands : List (Option (Tensor α)), n.inputs.map (·.map fun id => symbols[id.index]?) =
      operands.map (·.map fun x => some x.type) →
    ∃ p : Attention.Problem α,
      Attention.Problem.ofOperands ⟨n.op.operator.qualifiedName, operands, n.attrs⟩ = .ok p ∧
        p.causal = causal ∧ p.scale = Scalar.ofFloat scale

namespace Turn

/-- The call of attention becomes `flash_fwd`, with the causal flag and the scale that the reference
implementation finds. -/
structure Fused (ops : Operators α) (available : Bool) (symbols : List TensorType) (τ : Turn α) :
    Prop where
  outcome : τ.record.outcome = .substituted executorName
  available : available = true
  target : τ.call.op = .highLevel Attention.operator
  op : τ.node.op = .kernel ops.forward
  scaled : ∃ causal scale, τ.node.attrs = callAttrs causal scale ∧ Poses symbols τ.call causal scale
  outputs : ∃ output lse, τ.node.outputs = [output, lse]

theorem Fused.fused_eq {ops : Operators α} {available : Bool} {symbols : List TensorType}
    {τ : Turn α} (h : τ.Fused ops available symbols) : τ.fused = true := by
  unfold fused
  rw [h.outcome]
  rfl

omit [Scalar α] in
/-- The call of `flash_bwd` that belongs to a fused turn: it reads a gradient and what `flash_fwd`
reads and returns. -/
structure Reversed (ops : Operators α) (τ : Turn α) (gradient : SymbolId) (n : Node α) : Prop where
  op : n.op = .kernel ops.backward
  attrs : n.attrs = τ.node.attrs
  inputs : n.inputs = some gradient :: (τ.node.inputs ++ τ.node.outputs.map some)

/-- The calls that a turn gives to the backward part. Apart from what belongs to a fused turn they
read allowed symbols only. -/
def Gives (ops : Operators α) (allowed : SymbolId → Prop) (τ : Turn α) (calls : List (Node α)) :
    Prop :=
  (τ.fused = false ∧ ∀ n ∈ calls, n.op = .kernel Attention.backwardOperator ∧
      ∀ id, some id ∈ n.inputs → allowed id) ∨
    (τ.fused = true ∧ ∃ gradient n, allowed gradient ∧ calls = [n] ∧ τ.Reversed ops gradient n)

/-- The fragment that a turn leaves behind. -/
structure Leaves (ops : Operators α) (t : Tracer α) (hidden : List SymbolId) (τ : Turn α)
    (f : Fragment α) : Prop where
  isEmpty : f.isEmpty = false
  typed : f.Typed t.symbols
  shown : f.Public (t.Shows hidden)
  gives : ∀ allowed symbols m, (∀ id, t.Shows hidden id → allowed id) →
    Backward.Renames allowed symbols f.placeholderIds m → τ.Gives ops allowed (f.calls m)

theorem Leaves.mono {ops : Operators α} {t t' : Tracer α} {hidden hidden' : List SymbolId}
    {τ : Turn α} {f : Fragment α} (h : τ.Leaves ops t hidden f) (hle : t.symbols <+: t'.symbols)
    (hshows : ∀ id, t.Shows hidden id → t'.Shows hidden' id) : τ.Leaves ops t' hidden' f where
  isEmpty := h.isEmpty
  typed := h.typed.mono hle
  shown := h.shown.mono hshows
  gives allowed symbols m hallowed :=
    h.gives allowed symbols m fun id hid => hallowed id (hshows id hid)

end Turn

/-- What takes the place of a call of the source: one call, and with gradients a fragment. -/
structure Turn.Becomes (ops : Operators α) (available : Bool) (source : List TensorType)
    (gradient : Bool) (t : Tracer α) (hidden : List SymbolId) (τ : Turn α) (output : TensorType)
    (t' : Tracer α) (f : Fragment α) : Prop where
  advances : t.Advances τ.node output t'
  shown : t'.Shows (hidden ++ τ.hidden) t.nextId
  reads : ∀ id, some id ∈ τ.node.inputs → t.Shows hidden id
  settled : τ.Kept ∨ τ.Fused ops available source
  leaves : gradient = true → τ.Leaves ops t' (hidden ++ τ.hidden) f

omit [Scalar α] in
/-- The first of several values that are mapped to known ones. -/
theorem exists_first {β γ : Type} {f : β → γ} {xs : List (Option β)} {y : γ} {ys : List (Option γ)}
    (h : xs.map (·.map f) = some y :: ys) :
    ∃ x rest, xs = some x :: rest ∧ f x = y ∧ rest.map (·.map f) = ys := by
  obtain ⟨first, rest, rfl, hfirst, hrest⟩ := List.map_eq_cons_iff.1 h
  obtain ⟨x, rfl, hx⟩ := Option.map_eq_some_iff.1 hfirst
  exact ⟨x, rest, rfl, hx, hrest⟩

omit [Scalar α] in
/-- Three values and perhaps a fourth one, as attention reads them. -/
theorem exists_of_types {β γ : Type} {f : β → γ} {xs : List (Option β)} {a b c : γ} {d : Option γ}
    (h : xs.map (·.map f) = [some a, some b, some c, d]) :
    ∃ x y z w, xs = [some x, some y, some z, w] ∧ f x = a ∧ f y = b ∧ f z = c ∧ w.map f = d := by
  obtain ⟨x, rest, rfl, hx, hrest⟩ := exists_first h
  obtain ⟨y, rest, rfl, hy, hrest⟩ := exists_first hrest
  obtain ⟨z, rest, rfl, hz, hrest⟩ := exists_first hrest
  obtain ⟨w, rest, rfl, hw, hnil⟩ := List.map_eq_cons_iff.1 hrest
  obtain rfl : rest = [] := List.map_eq_nil_iff.1 hnil
  exact ⟨x, y, z, w, rfl, hx, hy, hz, hw⟩

section Becomes

variable {p : Progress α} {source : List TensorType} {known hidden : List SymbolId} {n : Node α}
  {operands : List (Option Symbol)} {output : TensorType} {ops : Operators α} {available : Bool}
  {record : DispatchRecord}

/-- A call that nothing replaces is recorded again. -/
theorem becomes_of_call (h : p.Tracks source known hidden)
    (hn : n.Typed source (operands.map (·.map Symbol.type)) [output])
    (hproper : n.op.operator.signature.Proper)
    (howned : ∀ s, some s ∈ operands → p.tracer.owns s = true ∧ s.id ∉ hidden)
    (hrecord : record.outcome = .fallback) :
    ∃ t' node, (Tracer.call n.op operands n.attrs).apply p.tracer =
        (.ok [⟨p.tracer.id, p.tracer.nextId, output⟩], t') ∧
      Turn.Becomes ops available source false p.tracer hidden ⟨n, record, node⟩ output t'
        ⟨[], []⟩ := by
  have hcall := hn.apply_call hproper rfl fun s hs => (howned s hs).1
  rw [Tracer.declare_append_eq_extend h.capture] at hcall
  let node := p.tracer.nextNode n.op operands n.attrs [output]
  have hadvances : p.tracer.Advances node output (p.tracer.extend [output] node) :=
    ⟨rfl, rfl, h.capture, [], [], rfl, (List.append_nil _).symm⟩
  refine ⟨_, node, hcall, hadvances, h.shows_nextId hadvances,
    fun id hid => Progress.Tracks.shows_of_operands howned hid,
    .inl ⟨hrecord, rfl, rfl, _, rfl⟩, fun hgradient => absurd hgradient Bool.false_ne_true⟩

theorem becomes_of_addGradient (h : p.Tracks source known hidden)
    (hn : n.Typed source (operands.map (·.map Symbol.type)) [output])
    (hop : n.op = .highLevel Core.add)
    (howned : ∀ s, some s ∈ operands → p.tracer.owns s = true ∧ s.id ∉ hidden)
    (hrecord : record.outcome = .fallback) (op : String) :
    ∃ t node, (Core.addGradient ⟨op, operands, n.attrs⟩).run.apply p.tracer.beginBackward =
        (.ok [⟨p.tracer.id, p.tracer.nextId, output⟩], t) ∧
      Turn.Becomes ops available source true p.tracer hidden ⟨n, record, node⟩ output
        t.endBackward.2 t.endBackward.1 := by
  obtain ⟨type, htypes, houtput, hattrs⟩ := hn.of_add hop
  obtain rfl : output = type := List.singleton_inj.1 houtput
  obtain ⟨x, rest, rfl, hx, hrest⟩ := exists_first htypes
  obtain ⟨y, rest, rfl, hy, hnil⟩ := exists_first hrest
  obtain rfl : rest = [] := List.map_eq_nil_iff.1 hnil
  obtain ⟨t, hrun, hend⟩ := Core.apply_addGradient (howned x (by simp)).1 (howned y (by simp)).1
    (hx.trans hy.symm) op n.attrs
  have htyped := ((capturesTyped_beginBackward p.tracer).run hrun).endBackward
  rw [hx] at hrun hend
  let node : Node α := ⟨.highLevel Core.add, [some x.id, some y.id], .empty, [p.tracer.nextId]⟩
  have hadvances : p.tracer.Advances node output t.endBackward.2 := by
    rw [hend]
    exact ⟨rfl, rfl, rfl, [], [output], rfl, rfl⟩
  refine ⟨t, node, hrun, hadvances, h.shows_nextId hadvances,
    fun id hid => Progress.Tracks.shows_of_operands howned hid,
    .inl ⟨hrecord, hop.symm, hattrs.symm, _, rfl⟩, fun _ => ⟨?_, htyped, ?_, ?_⟩⟩
  · rw [hend]
    rfl
  · have hshown := h.shows_nextId hadvances
    rw [hend] at hshown ⊢
    refine ⟨fun id hid => ?_, fun target contribution hmem => .inl ?_⟩
    · rw [List.mem_singleton.1 hid]
      exact hshown
    · rcases List.mem_pair.1 hmem with heq | heq
      · exact List.mem_singleton.2 (BackwardStep.accumulate.inj heq).2
      · exact List.mem_singleton.2 (BackwardStep.accumulate.inj heq).2
  · rw [hend]
    intro allowed symbols m _ _
    have hkept : record.outcome.isSubstituted = false := by
      rw [hrecord]
      rfl
    exact .inl ⟨hkept, fun n hn => absurd hn List.not_mem_nil⟩

/-- A fragment with one call on a gradient, whose results are contributed to three gradients. -/
theorem leaves_of_call (h : p.Tracks source known hidden) {τ : Turn α} {t' : Tracer α}
    (hadvances : p.tracer.Advances τ.node output t') {m : Node α} {d q k v dq dk dv : SymbolId}
    (htyped : Fragment.Typed t'.symbols (⟨[(d, p.tracer.nextId)], [.node m, .accumulate q dq,
      .accumulate k dk, .accumulate v dv]⟩ : Fragment α))
    (hlater : ∀ g ∈ [dq, dk, dv], p.tracer.symbols.length ≤ g.index ∧ g ∉ τ.hidden)
    (hgives : ∀ allowed symbols r, (∀ id, t'.Shows (hidden ++ τ.hidden) id → allowed id) →
      Backward.Renames allowed symbols [d] r → τ.Gives ops allowed [m.renamed r]) :
    τ.Leaves ops t' (hidden ++ τ.hidden) ⟨[(d, p.tracer.nextId)], [.node m, .accumulate q dq,
      .accumulate k dk, .accumulate v dv]⟩ := by
  refine ⟨rfl, htyped, ⟨fun id hid => ?_, fun target g hmem => .inr ?_⟩, hgives⟩
  · rw [List.mem_singleton.1 hid]
    exact h.shows_nextId hadvances
  · have hpair : (target, g) ∈ [(q, dq), (k, dk), (v, dv)] := by simpa using hmem
    have hg : g ∈ [dq, dk, dv] := List.mem_map_of_mem (f := Prod.snd) hpair
    obtain ⟨type, -, hget⟩ := htyped.contributions target g hmem
    exact h.shows_of_later (hlater g hg).1 (List.getElem?_eq_some_iff.1 hget).1 (hlater g hg).2

/-- The operands of a call of attention; on their types and that of the output the reference
implementations of attention and of its gradient are accepted. -/
theorem exists_operands_of_attention
    (hn : n.Typed source (operands.map (·.map Symbol.type)) [output])
    (hop : n.op = .highLevel Attention.operator) :
    ∃ (q k v : Symbol) (m : Option Symbol), operands = [some q, some k, some v, m] ∧
      (Attention.operator : Operator α).bind
        [some q.type, some k.type, some v.type, m.map Symbol.type] n.attrs = .ok n.attrs ∧
      (Attention.operator : Operator α).infer
        [some q.type, some k.type, some v.type, m.map Symbol.type] n.attrs = .ok [output] ∧
      (Attention.backwardOperator : Operator α).bind
        [some output, some q.type, some k.type, some v.type, m.map Symbol.type] n.attrs =
          .ok n.attrs ∧
      (Attention.backwardOperator : Operator α).inferBound
        [some output, some q.type, some k.type, some v.type, m.map Symbol.type] n.attrs =
          .ok [q.type, k.type, v.type] := by
  obtain ⟨query, key, value, mask, output', htypes, houtput, -, htype, -⟩ := hn.of_attention hop
  obtain rfl : output = output' := List.singleton_inj.1 houtput
  obtain ⟨q, k, v, m, rfl, rfl, rfl, rfl, rfl⟩ := exists_of_types htypes
  have hproper : n.op.operator.signature.Proper := by
    rw [hop]
    exact Attention.proper_signature
  have hbind := hn.bind_self hproper
  have hinfer := hn.inferred
  rw [hop] at hbind hinfer
  obtain ⟨hbackward, hbackwardInfer⟩ :=
    Attention.acceptsBackward (α := α) htype (Operator.bind_eq_ok_iff.1 hbind).2
  exact ⟨q, k, v, m, rfl, hbind, hinfer, hbackward, hbackwardInfer⟩

/-- The gradient of attention, if nothing replaces it. -/
theorem becomes_of_attentionGradient (h : p.Tracks source known hidden)
    (hn : n.Typed source (operands.map (·.map Symbol.type)) [output])
    (hop : n.op = .highLevel Attention.operator)
    (howned : ∀ s, some s ∈ operands → p.tracer.owns s = true ∧ s.id ∉ hidden)
    (hrecord : record.outcome = .fallback) (op : String) :
    ∃ t node, (Attention.gradient ⟨op, operands, n.attrs⟩).run.apply p.tracer.beginBackward =
        (.ok [⟨p.tracer.id, p.tracer.nextId, output⟩], t) ∧
      Turn.Becomes ops available source true p.tracer hidden ⟨n, record, node⟩ output
        t.endBackward.2 t.endBackward.1 := by
  obtain ⟨q, k, v, m, rfl, hbind, hinfer, hbackward, hbackwardInfer⟩ :=
    exists_operands_of_attention hn hop
  obtain ⟨t, dq, dk, dv, hrun, hlater, hend⟩ := Attention.apply_gradient
    (fun s hs => (howned s hs).1) hbind hinfer hbackward hbackwardInfer op
  have htyped := ((capturesTyped_beginBackward p.tracer).run hrun).endBackward
  have hkept : record.outcome.isSubstituted = false := by
    rw [hrecord]
    rfl
  let inputs : List (Option SymbolId) := [some q, some k, some v, m].map (·.map Symbol.id)
  let node : Node α := ⟨.highLevel Attention.operator, inputs, n.attrs, [p.tracer.nextId]⟩
  have hreads : ∀ id, some id ∈ inputs → p.tracer.Shows hidden id :=
    fun id hid => Progress.Tracks.shows_of_operands howned hid
  have hadvances : p.tracer.Advances node output t.endBackward.2 := by
    rw [hend]
    exact ⟨rfl, rfl, rfl, [], output :: [q.type, k.type, v.type], rfl, by simp⟩
  refine ⟨t, node, hrun, hadvances, h.shows_nextId hadvances, hreads,
    .inl ⟨hrecord, hop.symm, rfl, _, rfl⟩, fun _ => ?_⟩
  rw [hend] at htyped hadvances ⊢
  refine leaves_of_call h hadvances htyped (fun g hg => ⟨?_, List.not_mem_nil⟩) ?_
  · obtain ⟨s, hs, rfl⟩ : ∃ s ∈ [dq, dk, dv], s.id = g := List.mem_map.1 hg
    have hle := hlater s hs
    simp only [List.length_append] at hle
    omega
  · intro allowed symbols r hallowed hrenames
    refine .inl ⟨hkept, fun x hx => ?_⟩
    rw [List.mem_singleton.1 hx]
    refine ⟨rfl, fun id hid => ?_⟩
    obtain ⟨y, hy, heq⟩ := List.mem_map.1 hid
    obtain ⟨id', rfl, rfl⟩ := Option.map_eq_some_iff.1 heq
    refine hrenames.allowed_rename ?_
    rcases List.mem_cons.1 hy with hd | hinput
    · exact .inl (List.mem_singleton.2 (Option.some.inj hd))
    · exact .inr (hallowed id' (hadvances.shows (hreads id' hinput)))

section Fused

variable {kernel : FlashKernel α} {config : FlashConfig} {op : String}

variable (kernel) in
/-- What the fused operators need of a call of attention that the checker admits is settled by the
types of its operands. -/
theorem exists_call_of_types {types : List (Option TensorType)} (hn : n.Typed source types [output])
    (hop : n.op = .highLevel Attention.operator) (htypes : operands.map (·.map Symbol.type) = types)
    (hadmits : admits config available ⟨op, operands, n.attrs⟩ = true) :
    available = true ∧ ∃ query key value causal scale lse,
      types = [some query, some key, some value, none] ∧
      AcceptsCall (registeredOperators kernel available) query key value output lse
        (callAttrs causal scale) ∧ Poses source n causal scale ∧
      ∀ op (q k v : Symbol), q.type = query →
        Call.ofOperands ⟨op, [some q, some k, some v, none], n.attrs⟩ =
          .ok ⟨q, k, v, callAttrs causal scale⟩ := by
  obtain ⟨query, key, value, mask, output', rfl, houtput, haccepts, -, dropout, causal, scale,
    seed, hsettled⟩ := hn.of_attention hop
  obtain rfl : output = output' := List.singleton_inj.1 houtput
  obtain ⟨q, k, v, m, rfl, rfl, rfl, rfl, rfl⟩ := exists_of_types htypes
  obtain ⟨havailable, _, _, _, hq, hk, hv, hmask, hrank⟩ := of_admits hadmits
  obtain rfl := Option.some.inj hq
  obtain rfl := Option.some.inj hk
  obtain rfl := Option.some.inj hv
  obtain rfl : m = none := hmask
  obtain ⟨lse, haccepted⟩ := acceptsCall_registeredOperators kernel available haccepts hrank
  obtain ⟨depth, hdepth⟩ : ∃ depth, q.type.shape.lastDim? = some depth :=
    Attention.lastDim?_of_pos (by omega)
  refine ⟨havailable, q.type, k.type, v.type, causal, _, lse, rfl, haccepted _ _,
    fun tensors htensors => ?_, fun op q' k' v' htype =>
      Call.ofOperands_eq_ok rfl rfl rfl hsettled (htype ▸ hdepth)⟩
  obtain ⟨x, y, z, -, rfl, hx, hy, hz, -⟩ := exists_of_types (htensors.symm.trans hn.inputTypes)
  rw [← Option.some.inj hx, ← Option.some.inj hy, ← Option.some.inj hz] at haccepts
  rw [← Option.some.inj hx] at hdepth
  exact Attention.ofOperands_eq_ok rfl rfl rfl haccepts hsettled hdepth

variable (kernel) in
theorem exists_call_of_admits (hn : n.Typed source (operands.map (·.map Symbol.type)) [output])
    (hop : n.op = .highLevel Attention.operator)
    (hadmits : admits config available ⟨op, operands, n.attrs⟩ = true) :
    available = true ∧ ∃ q k v causal scale lse, operands = [some q, some k, some v, none] ∧
      Call.ofOperands ⟨op, operands, n.attrs⟩ = .ok ⟨q, k, v, callAttrs causal scale⟩ ∧
      AcceptsCall (registeredOperators kernel available) q.type k.type v.type output lse
        (callAttrs causal scale) ∧ Poses source n causal scale := by
  obtain ⟨havailable, query, key, value, causal, scale, lse, htypes, haccepts, hposes, hcall⟩ :=
    exists_call_of_types kernel hn hop rfl hadmits
  obtain ⟨q, k, v, m, rfl, rfl, rfl, rfl, hnone⟩ := exists_of_types htypes
  obtain rfl : m = none := Option.map_eq_none_iff.1 hnone
  exact ⟨havailable, q, k, v, causal, scale, lse, rfl, hcall op q k v rfl, haccepts, hposes⟩

/-- `flash_fwd` takes the place of a call of attention. -/
theorem becomes_of_execution (h : p.Tracks source known hidden)
    (hn : n.Typed source (operands.map (·.map Symbol.type)) [output])
    (hop : n.op = .highLevel Attention.operator)
    (howned : ∀ s, some s ∈ operands → p.tracer.owns s = true ∧ s.id ∉ hidden)
    (hadmits : admits config available ⟨op, operands, n.attrs⟩ = true)
    (hrecord : record.outcome = .substituted executorName) :
    ∃ t' node, (execution (registeredOperators kernel available)
        ⟨op, operands, n.attrs⟩).run.apply p.tracer =
          (.ok [⟨p.tracer.id, p.tracer.nextId, output⟩], t') ∧
      Turn.Becomes (registeredOperators kernel available) available source false p.tracer hidden
        ⟨n, record, node⟩ output t' ⟨[], []⟩ := by
  obtain ⟨havailable, q, k, v, causal, scale, lse, rfl, hcall, haccepts, hposes⟩ :=
    exists_call_of_admits kernel hn hop hadmits
  have hrun := apply_execution hcall haccepts h.capture fun s hs => (howned s (by simpa using hs)).1
  let node := forwardNode (registeredOperators kernel available) p.tracer q k v
    (callAttrs causal scale)
  have hadvances : p.tracer.Advances node output (p.tracer.extend [output, lse] node) :=
    ⟨rfl, rfl, h.capture, [lse], [], rfl, (List.append_nil _).symm⟩
  refine ⟨_, node, hrun, hadvances, h.shows_nextId hadvances,
    fun id hid => Progress.Tracks.shows_of_operands howned (List.mem_append_left [none] hid),
    .inr ⟨hrecord, havailable, hop, rfl, ⟨causal, scale, rfl, hposes⟩, _, _, rfl⟩,
    fun hgradient => absurd hgradient Bool.false_ne_true⟩

/-- With gradients `flash_fwd` takes the place of a call of attention, and the fragment calls
`flash_bwd`. -/
theorem becomes_of_gradient (h : p.Tracks source known hidden)
    (hn : n.Typed source (operands.map (·.map Symbol.type)) [output])
    (hop : n.op = .highLevel Attention.operator)
    (howned : ∀ s, some s ∈ operands → p.tracer.owns s = true ∧ s.id ∉ hidden)
    (hadmits : admits config available ⟨op, operands, n.attrs⟩ = true)
    (hrecord : record.outcome = .substituted executorName) :
    ∃ t node, (gradient (registeredOperators kernel available)
        ⟨op, operands, n.attrs⟩).run.apply p.tracer.beginBackward =
          (.ok [⟨p.tracer.id, p.tracer.nextId, output⟩], t) ∧
      Turn.Becomes (registeredOperators kernel available) available source true p.tracer hidden
        ⟨n, record, node⟩ output t.endBackward.2 t.endBackward.1 := by
  obtain ⟨havailable, q, k, v, causal, scale, lse, rfl, hcall, haccepts, hposes⟩ :=
    exists_call_of_admits kernel hn hop hadmits
  obtain ⟨t, dq, dk, dv, hrun, hlater, hend⟩ := apply_gradient hcall haccepts
    fun s hs => (howned s (by simpa using hs)).1
  have htyped := ((capturesTyped_beginBackward p.tracer).run hrun).endBackward
  have hfused : record.outcome.isSubstituted = true := by
    rw [hrecord]
    rfl
  let node := forwardNode (registeredOperators kernel available) p.tracer q k v
    (callAttrs causal scale)
  have hreads : ∀ id, some id ∈ node.inputs → p.tracer.Shows hidden id := fun id hid =>
    Progress.Tracks.shows_of_operands howned (List.mem_append_left [none] hid)
  have hadvances : p.tracer.Advances node output t.endBackward.2 := by
    rw [hend]
    exact ⟨rfl, rfl, rfl, [lse], output :: [q.type, k.type, v.type], rfl, by simp⟩
  refine ⟨t, node, hrun, hadvances, h.shows_nextId hadvances, hreads,
    .inr ⟨hrecord, havailable, hop, rfl, ⟨causal, scale, rfl, hposes⟩, _, _, rfl⟩, fun _ => ?_⟩
  rw [hend] at htyped hadvances ⊢
  refine leaves_of_call h hadvances htyped (fun g hg => ?_)
    fun allowed symbols r hallowed hrenames => .inr ⟨hfused, r.rename _, _,
      hrenames.allowed_rename (.inl List.mem_cons_self), rfl, rfl, rfl, ?_⟩
  · obtain ⟨s, hs, rfl⟩ : ∃ s ∈ [dq, dk, dv], s.id = g := List.mem_map.1 hg
    have hle := hlater s hs
    simp only [List.length_append, List.length_cons, List.length_nil] at hle
    refine ⟨by omega, fun hmem => ?_⟩
    have hindex := congrArg SymbolId.index (List.mem_singleton.1 hmem)
    simp only at hindex
    omega
  · -- The gradient is the only symbol of the call that is renamed: the others come before it.
    have hbefore : ∀ id ∈ [q.id, k.id, v.id] ++ [p.tracer.nextId, ⟨p.tracer.symbols.length + 1⟩],
        id.index < p.tracer.symbols.length + 2 := by
      intro id hid
      rcases List.mem_append.1 hid with hid | hid
      · exact Nat.lt_add_right 2 (hreads id (List.mem_map_of_mem (f := some) hid)).1
      · rcases List.mem_pair.1 hid with rfl | rfl
        · exact Nat.lt_add_of_pos_right Nat.two_pos
        · exact Nat.lt_succ_self _
    have hkeep := hrenames.map_rename_of_lt fun id hid => by
      simpa only [List.length_append, List.length_cons, List.length_nil] using hbefore id hid
    exact congrArg (some (r.rename _) :: ·.map some) hkeep

end Fused

end Becomes

end Flash

end TraceSubstitution
