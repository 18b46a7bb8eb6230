import TraceSubstitution.Proofs.Attention.Gradients
import TraceSubstitution.Proofs.Attention.Inference
import TraceSubstitution.Proofs.Operator.Contract

/-!
# The operators of attention fulfil their contracts

Attention and its backward operator work in a buffer of all scores; the backward
operator also keeps the scores of one query. If these buffers and the outputs can
exist, every call that type inference accepts can be computed.
-/

namespace TraceSubstitution

namespace Attention

/-- How many keys there are. -/
def keyCount (query key : TensorType) : Nat := key.dims.getD (query.rank - 2) 0

/-- How many scores there are: one for every query and key. -/
def scoreCount (query key : TensorType) : Nat :=
  volume (query.dims.take (query.rank - 1)) * keyCount query key

/-- The buffers of a call of attention: that of the scores. -/
def operatorScratch : List (Option TensorType) → List Nat
  | some query :: some key :: _ => [scoreCount query key]
  | _ => []

/-- The buffers of a call of its backward operator: those of all scores, and of the scores of one
query. -/
def backwardScratch : List (Option TensorType) → List Nat
  | _ :: some query :: some key :: _ => [scoreCount query key, keyCount query key]
  | _ => []

variable {α : Type} [Scalar α]

namespace Problem.Posed

variable {p : Problem α} {args : Operands (Tensor α)} {q k v : Tensor α} {batch : List Nat}

theorem keyCount_eq (h : p.Posed args q k v batch) : keyCount q.type k.type = p.keys := by
  unfold keyCount
  rw [h.queryAxes.rank_eq, ← h.keyAxes.rank_eq, List.getD_eq_getElem?_getD,
    h.keyAxes.getElem?_rows, Option.getD_some]

theorem scoreCount_eq (h : p.Posed args q k v batch) :
    scoreCount q.type k.type = p.batch * p.queries * p.keys := by
  unfold scoreCount
  rw [h.keyCount_eq, h.queryAxes.take_rows, h.size]
  simp

end Problem.Posed

/-- Static arguments that the backward operator has bound can be read. -/
theorem settled_of_bindAttrs_backward {op : String} {attrs bound : Attrs}
    (h : backwardSignature.bindAttrs op attrs = .ok bound) :
    ∃ dropout causal scale seed, Settled bound dropout causal scale seed := by
  have hsame : signature.bindAttrs op attrs = .ok bound := Signature.bindAttrs_of_attrs rfl h
  exact settled_of_bindAttrs hsame

theorem fulfils_operator : (operator : Operator α).Fulfils operatorScratch := by
  refine Operator.fulfils (fun args h => ?_) ?_
  · exact (reports_outputType h).bind fun _ _ _ => trivial
  · intro tensors attrs bound outputs hlength hattrs htypes havailable
    obtain ⟨output, houtput, hpure⟩ := bind_eq_ok_iff.1 htypes
    obtain rfl : [output] = outputs := Except.ok.inj hpure
    obtain ⟨query, key, value, hquery, hkey, hvalue, haccepts⟩ := accepts_of_outputType houtput
    obtain ⟨x, y, z, mask, rfl⟩ : ∃ x y z mask, tensors = [x, y, z, mask] := by
      clear * - hlength
      match tensors, hlength with
      | [x, y, z, mask], _ => exact ⟨x, y, z, mask, rfl⟩
    obtain ⟨q, rfl, rfl⟩ := Tensor.exists_of_type (show x.map Tensor.type = _ from hquery)
    obtain ⟨k, rfl, rfl⟩ := Tensor.exists_of_type (show y.map Tensor.type = _ from hkey)
    obtain ⟨v, rfl, rfl⟩ := Tensor.exists_of_type (show z.map Tensor.type = _ from hvalue)
    obtain ⟨dropout, causal, scale, seed, hsettled⟩ := settled_of_bindAttrs hattrs
    obtain ⟨p, batch, hposed, rfl⟩ := posed_of_accepts ⟨_, [some q.contiguous,
      some k.contiguous, some v.contiguous, mask.map Tensor.contiguous], bound⟩ mask
      rfl rfl rfl rfl haccepts hsettled
    obtain ⟨hscratch, houtputs⟩ := havailable
    have hscores := hscratch _ List.mem_cons_self
    rw [hposed.scoreCount_eq] at hscores
    have hsize := houtputs _ List.mem_cons_self
    rw [(TensorType.HasAxes.withShape q.type batch p.queries p.valueDepth).numElements,
      ← hposed.size] at hsize
    exact (hposed.returns_output hscores hsize).bind fun t _ ht => congrArg (fun t => [t]) ht

/-- The operands of an accepted call of the backward operator pose a problem. -/
theorem exists_posed_of_backwardCall {op : String} {tensors : List (Option (Tensor α))}
    {attrs bound : Attrs} {types : List TensorType}
    (hlength : tensors.length = backwardSignature.tensors.length)
    (hattrs : backwardSignature.bindAttrs op attrs = .ok bound)
    (htypes : gradientTypes ⟨op, tensors.map (·.map Tensor.type), bound⟩ = .ok types) :
    ∃ (d q k v : Tensor α) (mask : Option (Tensor α)) (p : Problem α) (batch : List Nat),
      tensors = [some d, some q, some k, some v, mask] ∧ types = [q.type, k.type, v.type] ∧
      p.Posed (Problem.forwardOperands ⟨op, [some d.contiguous, some q.contiguous,
        some k.contiguous, some v.contiguous, mask.map Tensor.contiguous], bound⟩) q k v batch ∧
      p.batch * p.queries * p.valueDepth = d.type.numElements := by
  obtain ⟨output, query, key, value, hgradient, hquery, hkey, hvalue, houtput, rfl⟩ :=
    exists_of_gradientTypes htypes
  obtain ⟨g, x, y, z, mask, rfl⟩ : ∃ g x y z mask, tensors = [g, x, y, z, mask] := by
    clear * - hlength
    match tensors, hlength with
    | [g, x, y, z, mask], _ => exact ⟨g, x, y, z, mask, rfl⟩
  obtain ⟨d, rfl, rfl⟩ := Tensor.exists_of_type (show g.map Tensor.type = _ from hgradient)
  obtain ⟨q, rfl, rfl⟩ := Tensor.exists_of_type (show x.map Tensor.type = _ from hquery)
  obtain ⟨k, rfl, rfl⟩ := Tensor.exists_of_type (show y.map Tensor.type = _ from hkey)
  obtain ⟨v, rfl, rfl⟩ := Tensor.exists_of_type (show z.map Tensor.type = _ from hvalue)
  obtain ⟨_, _, _, hq, hk, hv, haccepts⟩ := accepts_of_outputType houtput
  obtain rfl := Option.some.inj hq
  obtain rfl := Option.some.inj hk
  obtain rfl := Option.some.inj hv
  obtain ⟨dropout, causal, scale, seed, hsettled⟩ := settled_of_bindAttrs_backward hattrs
  obtain ⟨p, batch, hposed, hd⟩ := posed_of_accepts (Problem.forwardOperands ⟨_,
    [some d.contiguous, some q.contiguous, some k.contiguous, some v.contiguous,
      mask.map Tensor.contiguous], bound⟩) mask rfl rfl rfl rfl haccepts hsettled
  refine ⟨d, q, k, v, mask, p, batch, rfl, rfl, hposed, ?_⟩
  rw [hd, (TensorType.HasAxes.withShape q.type batch p.queries p.valueDepth).numElements,
    hposed.size]

/-- The gradients of operands that pose a problem exist if their buffers do. -/
theorem Problem.Posed.returns_of_available {p : Problem α} {args : Operands (Tensor α)}
    {d q k v : Tensor α} {batch : List Nat}
    (h : p.Posed (Problem.forwardOperands args) q k v batch)
    (hd : args.optional 0 = some d.contiguous)
    (hsize : p.batch * p.queries * p.valueDepth = d.type.numElements)
    (havailable : Available [scoreCount q.type k.type, keyCount q.type k.type]
      [q.type, k.type, v.type]) :
    Returns (Problem.operandGradients args) fun ts =>
      ts.map Tensor.type = [q.type, k.type, v.type] := by
  obtain ⟨hscratch, houtputs⟩ := havailable
  have hscores := hscratch _ List.mem_cons_self
  have hkeys := hscratch _ (List.mem_cons_of_mem _ List.mem_cons_self)
  rw [h.scoreCount_eq] at hscores
  rw [h.keyCount_eq] at hkeys
  exact h.returns_operandGradients hd hsize hscores hkeys (houtputs _ (by simp))
    (houtputs _ (by simp)) (houtputs _ (by simp))

theorem fulfils_backwardOperator : (backwardOperator : Operator α).Fulfils backwardScratch := by
  refine Operator.fulfils (fun args h => reports_gradientTypes h) ?_
  intro tensors attrs bound outputs hlength hattrs htypes havailable
  obtain ⟨d, q, k, v, mask, p, batch, rfl, rfl, hposed, hsize⟩ :=
    exists_posed_of_backwardCall hlength hattrs htypes
  exact hposed.returns_of_available rfl hsize havailable

end Attention

end TraceSubstitution
