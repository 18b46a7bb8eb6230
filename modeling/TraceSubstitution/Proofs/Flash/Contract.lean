import TraceSubstitution.Proofs.Flash.Gradients
import TraceSubstitution.Proofs.Flash.Inference
import TraceSubstitution.Proofs.Flash.Registry
import TraceSubstitution.Proofs.Operator.Contract

/-!
# The fused operators fulfil their contracts

With the reference kernel the forward operator works in a buffer for the scores of
one block, and the backward operator in buffers for the padded gradients. If these
and the outputs can exist, every call that type inference accepts can be computed,
for every block size and every alignment of the gradients.
-/

namespace TraceSubstitution

namespace Flash

/-- The number of elements of a gradient whose rows are padded. -/
def paddedSize (alignment : Nat) (type : TensorType) : Nat :=
  volume type.dims.dropLast * paddedWidth alignment (type.shape.lastDim?.getD 0)

/-- The buffers of a call of the forward operator. -/
def forwardScratch (blockSize : Nat) : List (Option TensorType) → List Nat :=
  fun _ => [max blockSize 1]

/-- The buffers of a call of the backward operator. -/
def backwardScratch (config : FlashConfig) : List (Option TensorType) → List Nat
  | _ :: some q :: some k :: some v :: _ => [q, k, v].map (paddedSize config.headDimAlignment)
  | _ => []

theorem paddedSize_eq {type : TensorType} {outer inner rows width : Nat}
    (h : type.HasAxes [outer, inner] rows width) (alignment : Nat) :
    paddedSize alignment type = outer * inner * rows * paddedWidth alignment width := by
  unfold paddedSize
  rw [show type.dims = _ from h, h.lastDim?]
  simp [Nat.mul_assoc]

/-- The static arguments that the fused operators have bound can be read. -/
theorem readable_of_bindAttrs {s : Signature} (hs : s.Proper)
    (hattrs : s.attrs = (withAttrs .empty).attrs) {op : String} {attrs bound : Attrs}
    (h : s.bindAttrs op attrs = .ok bound) : (∃ causal, bound.bool "is_causal" = .ok causal) ∧
      ∀ depth, ∃ scale, Attention.softmaxScale bound depth = .ok scale := by
  have hmem : (⟨"is_causal", .bool, some (.bool false)⟩ : AttrParam) ∈ s.attrs ∧
      (⟨"scale", .optionalFloat, some .unset⟩ : AttrParam) ∈ s.attrs := by
    rw [hattrs]
    simp [withAttrs, Signature.attr, AttrValue.widen]
  obtain ⟨_, hcausal, hcausalKind⟩ := hs.get?_of_bindAttrs h hmem.1
  obtain ⟨_, hscale, hscaleKind⟩ := hs.get?_of_bindAttrs h hmem.2
  obtain ⟨scale, hscale⟩ := Attrs.exists_optionalFloat hscale hscaleKind
  refine ⟨Attrs.exists_bool hcausal hcausalKind, fun depth => ?_⟩
  unfold Attention.softmaxScale
  rw [hscale]
  exact ⟨_, rfl⟩

variable {α : Type} [Scalar α] (config : FlashConfig) (blockSize : Nat) (probe : Bool)

namespace Layout.Describes

variable {l : Layout} {outer inner : Nat} {q k v : Tensor α}
  (h : l.Describes outer inner q.type k.type v.type)
include h

omit [Scalar α] in
theorem lastDim_query : Require.lastDim q.contiguous.type = .ok l.depth := by
  rw [Tensor.type_contiguous]
  exact Require.lastDim_eq_ok_iff.2 h.query.lastDim?

/-- The reference kernel returns outputs that can exist. -/
theorem returns_reference_forward (hblock : max blockSize 1 < bufferBound)
    (houtput : (q.type.withShape ⟨[outer, inner] ++ [l.queries, l.valueDepth]⟩).numElements <
      bufferBound)
    (hlse : (⟨⟨[outer, inner, l.queries]⟩, .f32, q.type.device⟩ : TensorType).numElements <
      bufferBound) (scale : α) (causal : Bool) :
    Returns ((reference config blockSize probe).forward q.contiguous k.contiguous v.contiguous scale
      causal) fun r =>
        r.primary.type = q.type.withShape ⟨[outer, inner] ++ [l.queries, l.valueDepth]⟩ ∧
          r.auxiliary.type = ⟨⟨[outer, inner, l.queries]⟩, .f32, q.type.device⟩ := by
  rw [← h.outputElements] at houtput
  rw [← h.logElements rfl] at hlse
  have hreserve : l.reserveForward (max blockSize 1) = .ok () := by
    unfold Layout.reserveForward
    rw [reserve_eq_ok_iff.2 houtput, reserve_eq_ok_iff.2 hlse]
    exact reserve_eq_ok_iff.2 hblock
  unfold reference
  simp only [h.layout_eq_ok, ok_bind, hreserve]
  exact h.returns_forward _ _ _

omit [Scalar α] in
theorem reserveBackward_eq_ok {alignment : Nat} (hscratch : ∀ t ∈ [q.type, k.type, v.type],
    paddedSize alignment t < bufferBound) : l.reserveBackward alignment = .ok () := by
  have hquery := hscratch q.type (by simp)
  have hkey := hscratch k.type (by simp)
  have hvalue := hscratch v.type (by simp)
  rw [paddedSize_eq h.query, ← h.heads] at hquery
  rw [paddedSize_eq h.key, ← h.heads] at hkey
  rw [paddedSize_eq h.value, ← h.heads] at hvalue
  unfold Layout.reserveBackward
  rw [reserve_eq_ok_iff.2 hquery, reserve_eq_ok_iff.2 hkey]
  exact reserve_eq_ok_iff.2 hvalue

end Layout.Describes

/-- The gradients of the reference kernel can be cut back, to tensors that neither the
configuration nor the size of the blocks has an influence on. -/
theorem exists_reference_backward {x : FlashBackwardInput α} {l : Layout} {outer inner : Nat}
    (h : l.Describes outer inner x.q.type x.k.type x.v.type)
    (hlayout : backwardLayout x.contiguous = .ok l) (scale : α) (causal : Bool) :
    ∃ dq dk dv : Tensor α,
      (dq.type = x.q.type ∧ dk.type = x.k.type ∧ dv.type = x.v.type) ∧
      (dq.isContiguous = true ∧ dk.isContiguous = true ∧ dv.isContiguous = true) ∧
      ∀ (config : FlashConfig) (blockSize : Nat) (probe : Bool),
        (∀ t ∈ [x.q.type, x.k.type, x.v.type],
          paddedSize config.headDimAlignment t < bufferBound) →
        ∃ g, (reference config blockSize probe).backward x.contiguous scale causal = .ok g ∧
          backward config.headDimAlignment x.contiguous scale causal = .ok g ∧
          unpad g.dq x.q.contiguous = .ok dq ∧ unpad g.dk x.k.contiguous = .ok dk ∧
          unpad g.dv x.v.contiguous = .ok dv := by
  obtain ⟨dq, dk, dv, hdq, hdk, hdv, hunpad⟩ := exists_unpadded hlayout scale causal
  obtain ⟨hdqType, -, hdqDense⟩ := Tensor.of_ofElements_eq_ok hdq
  obtain ⟨hdkType, -, hdkDense⟩ := Tensor.of_ofElements_eq_ok hdk
  obtain ⟨hdvType, -, hdvDense⟩ := Tensor.of_ofElements_eq_ok hdv
  refine ⟨dq, dk, dv, ⟨hdqType.trans x.q.type_contiguous, hdkType.trans x.k.type_contiguous,
    hdvType.trans x.v.type_contiguous⟩, ⟨hdqDense, hdkDense, hdvDense⟩,
    fun config blockSize probe hscratch => ?_⟩
  obtain ⟨g, hg, hgradients⟩ := hunpad config.headDimAlignment
  refine ⟨g, ?_, hg, hgradients⟩
  unfold reference
  simp only [hlayout, ok_bind, h.reserveBackward_eq_ok hscratch, hg]

theorem fulfils_forwardOperator :
    (forwardOperator (reference config blockSize probe) true : Operator α).Fulfils
      (forwardScratch blockSize) := by
  refine Operator.fulfils (fun args _ => ?_) ?_
  · exact (reports_forwardTypes args).bind fun _ _ _ => trivial
  · intro tensors attrs bound outputs hlength hattrs htypes havailable
    obtain ⟨⟨output, lse⟩, hforward, hpure⟩ := bind_eq_ok_iff.1 htypes
    obtain rfl : [output, lse] = outputs := Except.ok.inj hpure
    obtain ⟨_, _, _, hq, hk, hv, l, outer, inner, hl, rfl, rfl⟩ := exists_of_forwardTypes hforward
    obtain ⟨⟨causal, hcausal⟩, hscale⟩ := readable_of_bindAttrs proper_forwardSignature rfl hattrs
    obtain ⟨scale, hscale⟩ := hscale l.depth
    obtain ⟨x, y, z, rfl⟩ : ∃ x y z, tensors = [x, y, z] := by
      clear * - hlength
      match tensors, hlength with
      | [x, y, z], _ => exact ⟨x, y, z, rfl⟩
    obtain ⟨q, rfl, rfl⟩ := Tensor.exists_of_type (show x.map Tensor.type = _ from hq)
    obtain ⟨k, rfl, rfl⟩ := Tensor.exists_of_type (show y.map Tensor.type = _ from hk)
    obtain ⟨v, rfl, rfl⟩ := Tensor.exists_of_type (show z.map Tensor.type = _ from hv)
    obtain ⟨hscratch, houtputs⟩ := havailable
    have hkernel := hl.returns_reference_forward config blockSize probe
      (hscratch _ List.mem_cons_self) (houtputs _ List.mem_cons_self)
      (houtputs _ (List.mem_cons_of_mem _ List.mem_cons_self)) (Scalar.ofFloat scale : α) causal
    change Returns (do
      let scale ← Attention.softmaxScale bound (← Require.lastDim q.contiguous.type)
      let causal ← bound.bool "is_causal"
      let result ← (reference config blockSize probe).forward q.contiguous k.contiguous
        v.contiguous (Scalar.ofFloat scale) causal
      return [result.primary, result.auxiliary]) _
    rw [hl.lastDim_query, ok_bind, hscale, ok_bind, hcausal, ok_bind]
    exact hkernel.bind fun r _ hr => by simp [hr.1, hr.2]

omit [Scalar α] in
/-- The operands that `flash_bwd` accepts have the sizes of one layout. -/
theorem exists_of_backwardCall {tensors : List (Option (Tensor α))} {bound : Attrs}
    {outputs : List TensorType} (hlength : tensors.length = backwardSignature.tensors.length)
    {op : String} (htypes : backwardTypes ⟨op, tensors.map (·.map Tensor.type), bound⟩ =
      .ok outputs) :
    ∃ x : FlashBackwardInput α,
      tensors = [some x.dOut, some x.q, some x.k, some x.v, some x.out, some x.lse] ∧
        outputs = [x.q.type, x.k.type, x.v.type] ∧
        ∃ (l : Layout) (outer inner : Nat), l.Describes outer inner x.q.type x.k.type x.v.type ∧
          backwardLayout x.contiguous = .ok l := by
  obtain ⟨_, _, _, _, _, hdOut, hq, hk, hv, hout, hlse, rfl, hforward⟩ :=
    exists_of_backwardTypes htypes
  obtain ⟨_, _, _, hq', hk', hv', l, outer, inner, hl, hdOutType, hlseType⟩ :=
    exists_of_forwardTypes hforward
  obtain rfl := Option.some.inj hq'
  obtain rfl := Option.some.inj hk'
  obtain rfl := Option.some.inj hv'
  obtain ⟨g, x, y, z, o, s, rfl⟩ : ∃ g x y z o s, tensors = [g, x, y, z, o, s] := by
    clear * - hlength
    match tensors, hlength with
    | [g, x, y, z, o, s], _ => exact ⟨g, x, y, z, o, s, rfl⟩
  obtain ⟨dOut, rfl, rfl⟩ := Tensor.exists_of_type (show g.map Tensor.type = _ from hdOut)
  obtain ⟨q, rfl, rfl⟩ := Tensor.exists_of_type (show x.map Tensor.type = _ from hq)
  obtain ⟨k, rfl, rfl⟩ := Tensor.exists_of_type (show y.map Tensor.type = _ from hk)
  obtain ⟨v, rfl, rfl⟩ := Tensor.exists_of_type (show z.map Tensor.type = _ from hv)
  obtain ⟨out, rfl, hsame⟩ := Tensor.exists_of_type (show o.map Tensor.type = _ from hout)
  obtain ⟨lse, rfl, rfl⟩ := Tensor.exists_of_type (show s.map Tensor.type = _ from hlse)
  have hdOutAxes : dOut.type.HasAxes [outer, inner] l.queries l.valueDepth := by
    rw [hdOutType]
    exact TensorType.HasAxes.withShape _ _ _ _
  have hlseDims : lse.type.dims = [outer, inner, l.queries] := by
    rw [hlseType]
    rfl
  exact ⟨⟨dOut, q, k, v, out, lse⟩, rfl, rfl, l, outer, inner, hl,
    hl.backwardLayout_eq_ok (x := ⟨dOut, q, k, v, out, lse⟩) hdOutAxes hsame hlseDims⟩

/-- A bound call of `flash_bwd` runs the kernel and cuts its gradients back. -/
theorem exists_computeBackward {op : String} {attrs bound : Attrs}
    (hattrs : backwardSignature.bindAttrs op attrs = .ok bound) {q : TensorType} {depth : Nat}
    (hdepth : q.shape.lastDim? = some depth) :
    ∃ (scale : Float) (causal : Bool), ∀ (kernel : FlashKernel α) (call : String)
      (x : FlashBackwardInput α), x.q.type = q → computeBackward kernel true
          ⟨call, [some x.dOut, some x.q, some x.k, some x.v, some x.out, some x.lse], bound⟩ = do
        let g ← kernel.backward x (Scalar.ofFloat scale) causal
        return [← unpad g.dq x.q, ← unpad g.dk x.k, ← unpad g.dv x.v] := by
  obtain ⟨⟨causal, hcausal⟩, hscale⟩ := readable_of_bindAttrs proper_backwardSignature rfl hattrs
  obtain ⟨scale, hscale⟩ := hscale depth
  refine ⟨scale, causal, fun kernel call x hx => ?_⟩
  change (do
    let scale ← Attention.softmaxScale bound (← Require.lastDim x.q.type)
    let causal ← bound.bool "is_causal"
    let g ← kernel.backward x (Scalar.ofFloat scale) causal
    return [← unpad g.dq x.q, ← unpad g.dk x.k, ← unpad g.dv x.v]) = _
  rw [hx, Require.lastDim_eq_ok_iff.2 hdepth, ok_bind, hscale, ok_bind, hcausal, ok_bind]

/-- What `flash_bwd` returns with the reference kernel on a bound call that it accepts: neither the
configuration nor the size of the blocks has an influence. -/
theorem exists_computeBackward_reference {op : String} {attrs bound : Attrs}
    (hattrs : backwardSignature.bindAttrs op attrs = .ok bound) {x : FlashBackwardInput α}
    {l : Layout} {outer inner : Nat} (h : l.Describes outer inner x.q.type x.k.type x.v.type)
    (hlayout : backwardLayout x.contiguous = .ok l) : ∃ dq dk dv : Tensor α,
      (dq.type = x.q.type ∧ dk.type = x.k.type ∧ dv.type = x.v.type) ∧
      (dq.isContiguous = true ∧ dk.isContiguous = true ∧ dv.isContiguous = true) ∧
      ∀ (config : FlashConfig) (blockSize : Nat) (probe : Bool) (call : String),
        (∀ t ∈ [x.q.type, x.k.type, x.v.type],
          paddedSize config.headDimAlignment t < bufferBound) →
        computeBackward (reference config blockSize probe) true ⟨call, [some x.dOut, some x.q,
          some x.k, some x.v, some x.out, some x.lse].map (·.map Tensor.contiguous), bound⟩ =
            .ok [dq, dk, dv] := by
  obtain ⟨scale, causal, hcompute⟩ :=
    exists_computeBackward (α := α) hattrs h.contiguous.query.lastDim?
  obtain ⟨dq, dk, dv, htypes, hdense, hkernel⟩ :=
    exists_reference_backward h hlayout (Scalar.ofFloat scale) causal
  refine ⟨dq, dk, dv, htypes, hdense, fun config blockSize probe call hscratch => ?_⟩
  obtain ⟨g, hg, -, hdq, hdk, hdv⟩ := hkernel config blockSize probe hscratch
  refine (hcompute (reference config blockSize probe) call x.contiguous rfl).trans ?_
  rw [hg, ok_bind]
  change (do return [← unpad g.dq x.q.contiguous, ← unpad g.dk x.k.contiguous,
    ← unpad g.dv x.v.contiguous]) = _
  rw [hdq, hdk, hdv]
  rfl

theorem fulfils_backwardOperator :
    (backwardOperator (reference config blockSize probe) true : Operator α).Fulfils
      (backwardScratch config) := by
  refine Operator.fulfils (fun args _ => reports_backwardTypes args) ?_
  intro tensors attrs bound outputs hlength hattrs htypes havailable
  obtain ⟨x, rfl, rfl, l, outer, inner, hl, hlayout⟩ := exists_of_backwardCall hlength htypes
  obtain ⟨dq, dk, dv, ⟨hdq, hdk, hdv⟩, -, hcompute⟩ :=
    exists_computeBackward_reference hattrs hl hlayout
  refine returns_of_eq_ok (hcompute config blockSize probe _ fun t ht =>
    havailable.1 _ (List.mem_map_of_mem ht)) ?_
  simp [hdq, hdk, hdv]

end Flash

end TraceSubstitution
