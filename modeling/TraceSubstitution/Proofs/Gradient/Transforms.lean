import TraceSubstitution.Proofs.Core
import TraceSubstitution.Proofs.Flash.Typing
import TraceSubstitution.Proofs.Trace.Calling
import TraceSubstitution.Proofs.Trace.Running

/-!
# What the gradient transforms record

The gradient transforms of addition, of attention and of the fused executor record
one call in the program. In the fragment they leave behind there is one
placeholder, for the gradient of the output of this call, and for attention one
call that depends on it.
-/

namespace TraceSubstitution

open Tracer

variable {α : Type}

namespace Core

variable [Scalar α]

theorem run_addGradient (args : Operands Symbol) : (addGradient args : Recipe α _).run = (do
    let lhs ← args.tensor 0
    let rhs ← args.tensor 1
    let out ← single (← Tracer.call (.highLevel add) [some lhs, some rhs] .empty)
    let incoming ← Tracer.incomingGradient out
    Tracer.accumulateGradient lhs incoming
    Tracer.accumulateGradient rhs incoming
    return [out]) := by
  unfold addGradient
  simp only [Recipe.run_seq, Recipe.run_liftM, Recipe.run_outputsOf, Recipe.run_incomingGradient,
    Recipe.run_accumulateGradient, Recipe.run_pure]
  rfl

/-- The gradient of a sum: what flows into it is contributed to both operands. -/
theorem apply_addGradient {t : Tracer α} {x y : Symbol} (hx : t.owns x = true)
    (hy : t.owns y = true) (htype : x.type = y.type) (op : String) (attrs : Attrs) :
    let d : SymbolId := ⟨(t.symbols ++ [x.type]).length⟩
    ∃ t', (addGradient ⟨op, [some x, some y], attrs⟩).run.apply t.beginBackward =
        (.ok [⟨t.id, t.nextId, x.type⟩], t') ∧
      t'.endBackward = (⟨[(d, t.nextId)], [.accumulate x.id d, .accumulate y.id d]⟩,
        { t with
          symbols := t.symbols ++ [x.type] ++ [x.type]
          nodes := t.nodes ++
            [⟨.highLevel add, [some x.id, some y.id], .empty, [t.nextId]⟩]
          capture := none }) := by
  intro d
  let n : Node α := ⟨.highLevel add, [some x.id, some y.id], .empty, [t.nextId]⟩
  let c : Capture α := Capture.empty.addPlaceholder d t.nextId
  have hbind : (NodeOp.highLevel (add : Operator α)).operator.bind
      ([some x, some y].map (·.map Symbol.type)) .empty = .ok .empty := rfl
  have hinfer : (NodeOp.highLevel (add : Operator α)).inferTypes
      ([some x, some y].map (·.map Symbol.type)) .empty = .ok [x.type] := by
    change add.infer [some x.type, some y.type] .empty = _
    rw [← htype, infer_add]
  have hcall : (Tracer.call (.highLevel add) [some x, some y] .empty).apply t.beginBackward =
      (.ok [⟨t.id, t.nextId, x.type⟩], (t.extend [x.type] n).beginBackward) := by
    rw [apply_call hbind hinfer, declare_append_beginBackward]
    · rfl
    · intro s hs
      rcases List.mem_pair.1 hs with hs | hs
      · exact Option.some.inj hs ▸ hx
      · exact Option.some.inj hs ▸ hy
  have hincoming := t.apply_incomingGradient_extend x.type [] n
  have hgradient := t.owns_opened_gradient [x.type] n x.type
  have hlhs := apply_accumulateGradient (t := t.opened [x.type] n x.type) (c := c) rfl
    (owns_opened hx [x.type] n x.type) hgradient rfl
  have hrhs := apply_accumulateGradient
    (t := { t.opened [x.type] n x.type with capture := some (c.accumulate x.id d) })
    rfl (owns_opened hy [x.type] n x.type) hgradient htype.symm
  have hlhsTensor : (⟨op, [some x, some y], attrs⟩ : Operands Symbol).tensor 0 = .ok x := rfl
  have hrhsTensor : (⟨op, [some x, some y], attrs⟩ : Operands Symbol).tensor 1 = .ok y := rfl
  refine ⟨{ t.opened [x.type] n x.type with
    capture := some ((c.accumulate x.id d).accumulate y.id d) }, ?_, rfl⟩
  rw [run_addGradient, Act.apply_liftM_bind_of_ok hlhsTensor,
    Act.apply_liftM_bind_of_ok hrhsTensor, Act.apply_bind_of_ok hcall,
    Act.apply_liftM_bind_of_ok (single_singleton _), Act.apply_bind_of_ok hincoming,
    Act.apply_bind_of_ok hlhs, Act.apply_bind_of_ok hrhs]
  rfl

end Core

namespace Attention

/-- There are no gradients beyond those of query, key and value. -/
theorem run_accumulateAll (q k v dq dk dv : Symbol) (mask : Option Symbol) :
    (accumulateAll [some q, some k, some v, mask] [dq, dk, dv] : Recipe α Unit).run = (do
      Tracer.accumulateGradient q dq
      Tracer.accumulateGradient k dk
      Tracer.accumulateGradient v dv
      pure ()) := by
  have hrest : (accumulateAll [mask] [] : Recipe α Unit) = pure () := by
    cases mask with
    | none => rfl
    | some m => rfl
  simp only [accumulateAll, hrest, Recipe.run_seq, Recipe.run_accumulateGradient, Recipe.run_pure]

variable [Scalar α]

theorem run_gradient (args : Operands Symbol) : (gradient args : Recipe α _).run = (do
    let out ← single (← Tracer.call (.highLevel operator) args.tensors args.attrs)
    let incoming ← Tracer.incomingGradient out
    let gradients ← Tracer.call (.kernel backwardOperator) (some incoming :: args.tensors)
      args.attrs
    (accumulateAll args.tensors gradients).run
    return [out]) := by
  unfold gradient
  simp only [Recipe.run_seq, Recipe.run_liftM, Recipe.run_outputsOf, Recipe.run_incomingGradient,
    Recipe.run_pure]
  rfl

/-- The gradient of attention: its backward operator is called on the gradient that flows into the
output, and what it returns is contributed to query, key and value. -/
theorem apply_gradient {t : Tracer α} {q k v : Symbol} {mask : Option Symbol} {attrs : Attrs}
    {output : TensorType} (howned : ∀ s, some s ∈ [some q, some k, some v, mask] → t.owns s = true)
    (hbind : (operator : Operator α).bind [some q.type, some k.type, some v.type,
      mask.map Symbol.type] attrs = .ok attrs)
    (hinfer : (operator : Operator α).infer [some q.type, some k.type, some v.type,
      mask.map Symbol.type] attrs = .ok [output])
    (hbackward : (backwardOperator : Operator α).bind [some output, some q.type, some k.type,
      some v.type, mask.map Symbol.type] attrs = .ok attrs)
    (hbackwardInfer : (backwardOperator : Operator α).inferBound [some output, some q.type,
      some k.type, some v.type, mask.map Symbol.type] attrs = .ok [q.type, k.type, v.type])
    (op : String) :
    let d : SymbolId := ⟨(t.symbols ++ [output]).length⟩
    let operands := [some q, some k, some v, mask]
    ∃ t', ∃ dq dk dv : Symbol,
      (gradient ⟨op, operands, attrs⟩).run.apply t.beginBackward =
        (.ok [⟨t.id, t.nextId, output⟩], t') ∧
      (∀ g ∈ [dq, dk, dv], (t.symbols ++ [output] ++ [output]).length ≤ g.id.index) ∧
      t'.endBackward = (⟨[(d, t.nextId)], [
          .node ⟨.kernel backwardOperator, some d :: operands.map (·.map Symbol.id), attrs,
            [dq.id, dk.id, dv.id]⟩,
          .accumulate q.id dq.id, .accumulate k.id dk.id, .accumulate v.id dv.id]⟩,
        { t with
          symbols := t.symbols ++ [output] ++ [output] ++ [q.type, k.type, v.type]
          nodes := t.nodes ++
            [⟨.highLevel operator, operands.map (·.map Symbol.id), attrs, [t.nextId]⟩]
          capture := none }) := by
  intro d operands
  let n : Node α := ⟨.highLevel operator, operands.map (·.map Symbol.id), attrs, [t.nextId]⟩
  have hcall : (Tracer.call (.highLevel operator) operands attrs).apply t.beginBackward =
      (.ok [⟨t.id, t.nextId, output⟩], (t.extend [output] n).beginBackward) := by
    have happly : (Tracer.call (.highLevel operator) operands attrs).apply t.beginBackward = _ :=
      apply_call hbind hinfer howned
    rw [happly, declare_append_beginBackward]
    rfl
  have hincoming := t.apply_incomingGradient_extend output [] n
  have hopened : ∀ s, some s ∈ operands → (t.opened [output] n output).owns s = true :=
    fun s hs => owns_opened (howned s hs) _ _ _
  obtain ⟨dq, dk, dv, t₁, t₂, t₃, t₄, hgradients, hdq, hdk, hdv, hfresh, hend⟩ :=
    apply_call_accumulate (t := t.opened [output] n output) rfl (hopened q (by simp [operands]))
      (hopened k (by simp [operands])) (hopened v (by simp [operands])) (.kernel backwardOperator)
      ⟨t.id, d, output⟩ operands List.mem_cons_self hbackward hbackwardInfer (fun s hs => by
        rcases List.mem_cons.1 hs with hs | hs
        · exact Option.some.inj hs ▸ t.owns_opened_gradient [output] n output
        · exact hopened s hs)
  refine ⟨t₄, dq, dk, dv, ?_, fun g hg => (index_of_mem_fresh (hfresh ▸ hg)).1, hend⟩
  rw [run_gradient, Act.apply_bind_of_ok hcall, Act.apply_liftM_bind_of_ok (single_singleton _),
    Act.apply_bind_of_ok hincoming, Act.apply_bind_of_ok hgradients, run_accumulateAll]
  have hall : (do
      Tracer.accumulateGradient q dq
      Tracer.accumulateGradient k dk
      Tracer.accumulateGradient v dv
      pure () : Act (Tracer α) Unit).apply t₁ = (.ok (), t₄) := by
    rw [Act.apply_bind_of_ok hdq, Act.apply_bind_of_ok hdk, Act.apply_bind_of_ok hdv]
    rfl
  rw [Act.apply_bind_of_ok hall]
  rfl

end Attention

namespace Flash

variable {ops : Operators α} {q k v : Symbol} {output lse : TensorType} {causal : Bool}
  {scale : Float} {args : Operands Symbol} {t : Tracer α}

/-- The call of `flash_fwd` on the next fresh symbols. -/
def forwardNode (ops : Operators α) (t : Tracer α) (q k v : Symbol) (attrs : Attrs) : Node α :=
  ⟨.kernel ops.forward, [some q.id, some k.id, some v.id], attrs,
    [t.nextId, ⟨t.symbols.length + 1⟩]⟩

/-- The calls of the fused operators on operands of the given types are accepted. -/
structure AcceptsCall (ops : Operators α) (q k v output lse : TensorType) (attrs : Attrs) : Prop where
  bind : ops.forward.bind [some q, some k, some v] attrs = .ok attrs
  infer : ops.forward.inferBound [some q, some k, some v] attrs = .ok [output, lse]
  backwardBind : ops.backward.bind
    [some output, some q, some k, some v, some output, some lse] attrs = .ok attrs
  backwardInfer : ops.backward.inferBound
    [some output, some q, some k, some v, some output, some lse] attrs = .ok [q, k, v]

theorem fresh_pair (t : Tracer α) (output lse : TensorType) : t.fresh [output, lse] =
    [⟨t.id, t.nextId, output⟩, ⟨t.id, ⟨t.symbols.length + 1⟩, lse⟩] := rfl

/-- What is done for the forward part of a call. -/
theorem apply_callForward {attrs : Attrs}
    (haccepts : AcceptsCall ops q.type k.type v.type output lse attrs)
    (howned : ∀ s, some s ∈ [some q, some k, some v] → t.owns s = true) :
    ((⟨q, k, v, attrs⟩ : Call).forward ops).run.apply t =
      (.ok (⟨t.id, t.nextId, output⟩, ⟨t.id, ⟨t.symbols.length + 1⟩, lse⟩),
        (t.declare [output, lse]).append (forwardNode ops t q k v attrs)) := by
  have hcall : (Tracer.call (.kernel ops.forward) [some q, some k, some v] attrs).apply t = _ :=
    apply_call haccepts.bind haccepts.infer howned
  unfold Call.forward
  rw [Recipe.run_seq, Recipe.run_outputsOf, Act.apply_bind_of_ok hcall, fresh_pair]
  rfl

/-- Attention becomes `flash_fwd`. -/
theorem apply_execution
    (hcall : Call.ofOperands args = .ok ⟨q, k, v, callAttrs causal scale⟩)
    (haccepts : AcceptsCall ops q.type k.type v.type output lse (callAttrs causal scale))
    (ht : t.capture = none)
    (howned : ∀ s, some s ∈ [some q, some k, some v] → t.owns s = true) :
    (execution ops args).run.apply t = (.ok [⟨t.id, t.nextId, output⟩],
      t.extend [output, lse] (forwardNode ops t q k v (callAttrs causal scale))) := by
  have hforward := apply_callForward haccepts howned
  rw [declare_append_eq_extend ht] at hforward
  unfold execution
  rw [Recipe.run_seq, Recipe.run_lift, hcall, Act.apply_bind_of_ok (Act.apply_lift _ _),
    Recipe.run_seq, Act.apply_bind_of_ok hforward]
  rfl

/-- The gradient of attention: `flash_bwd` is called on the gradient that flows into the output of
`flash_fwd`, and what it returns is contributed to query, key and value. -/
theorem apply_gradient
    (hcall : Call.ofOperands args = .ok ⟨q, k, v, callAttrs causal scale⟩)
    (haccepts : AcceptsCall ops q.type k.type v.type output lse (callAttrs causal scale))
    (howned : ∀ s, some s ∈ [some q, some k, some v] → t.owns s = true) :
    let d : SymbolId := ⟨(t.symbols ++ [output, lse]).length⟩
    ∃ t', ∃ dq dk dv : Symbol,
      (gradient ops args).run.apply t.beginBackward = (.ok [⟨t.id, t.nextId, output⟩], t') ∧
      (∀ g ∈ [dq, dk, dv], (t.symbols ++ [output, lse] ++ [output]).length ≤ g.id.index) ∧
      t'.endBackward = (⟨[(d, t.nextId)], [
          .node ⟨.kernel ops.backward, [some d, some q.id, some k.id, some v.id, some t.nextId,
            some ⟨t.symbols.length + 1⟩], callAttrs causal scale, [dq.id, dk.id, dv.id]⟩,
          .accumulate q.id dq.id, .accumulate k.id dk.id, .accumulate v.id dv.id]⟩,
        { t with
          symbols := t.symbols ++ [output, lse] ++ [output] ++ [q.type, k.type, v.type]
          nodes := t.nodes ++ [forwardNode ops t q k v (callAttrs causal scale)]
          capture := none }) := by
  intro d
  let n := forwardNode ops t q k v (callAttrs causal scale)
  let out : Symbol := ⟨t.id, t.nextId, output⟩
  let aux : Symbol := ⟨t.id, ⟨t.symbols.length + 1⟩, lse⟩
  have hforward : ((⟨q, k, v, callAttrs causal scale⟩ : Call).forward ops).run.apply
      t.beginBackward = (.ok (out, aux), (t.extend [output, lse] n).beginBackward) := by
    rw [apply_callForward (t := t.beginBackward) haccepts howned, declare_append_beginBackward]
    rfl
  have hincoming : (Tracer.incomingGradient out).apply
      (t.extend [output, lse] n).beginBackward =
        (.ok ⟨t.id, d, output⟩, t.opened [output, lse] n output) :=
    t.apply_incomingGradient_extend output [lse] n
  have hopened : ∀ s, some s ∈ [some q, some k, some v] →
      (t.opened [output, lse] n output).owns s = true := fun s hs => owns_opened (howned s hs) _ _ _
  have hfresh : ∀ s ∈ [out, aux], (t.opened [output, lse] n output).owns s = true :=
    fun s hs => owns_opened_of_mem_fresh (by rwa [fresh_pair]) n output
  have hbackward : ∀ s, some s ∈ [some ⟨t.id, d, output⟩, some q, some k, some v, some out,
      some aux] → (t.opened [output, lse] n output).owns s = true := by
    intro s hs
    rcases List.mem_cons.1 hs with hs | hs
    · exact Option.some.inj hs ▸ t.owns_opened_gradient [output, lse] n output
    · have hsplit : some s ∈ [some q, some k, some v] ++ [some out, some aux] := hs
      rcases List.mem_append.1 hsplit with hs | hs
      · exact hopened s hs
      · exact hfresh s (by simpa using hs)
  obtain ⟨dq, dk, dv, t₁, t₂, t₃, t₄, hgradients, hdq, hdk, hdv, hlater, hend⟩ :=
    apply_call_accumulate (t := t.opened [output, lse] n output) rfl (hopened q (by simp))
      (hopened k (by simp)) (hopened v (by simp)) (.kernel ops.backward) ⟨t.id, d, output⟩
      [some q, some k, some v, some out, some aux] List.mem_cons_self haccepts.backwardBind
      haccepts.backwardInfer hbackward
  refine ⟨t₄, dq, dk, dv, ?_, fun g hg => (index_of_mem_fresh (hlater ▸ hg)).1, hend⟩
  unfold gradient
  rw [Recipe.run_seq, Recipe.run_lift, hcall, Act.apply_bind_of_ok (Act.apply_lift _ _),
    Recipe.run_seq, Act.apply_bind_of_ok hforward]
  simp only
  rw [Recipe.run_seq, Recipe.run_incomingGradient, Act.apply_bind_of_ok hincoming,
    Recipe.run_seq, Recipe.run_outputsOf, Act.apply_bind_of_ok hgradients]
  simp only [Recipe.run_seq, Recipe.run_accumulateGradient]
  rw [Act.apply_bind_of_ok hdq, Act.apply_bind_of_ok hdk, Act.apply_bind_of_ok hdv]
  rfl

end Flash

end TraceSubstitution
