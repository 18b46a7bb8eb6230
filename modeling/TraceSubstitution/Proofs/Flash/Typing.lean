import TraceSubstitution.Flash.Executor
import TraceSubstitution.Proofs.Attention.Typing

/-!
# The fused operators accept what attention accepts

A call of attention whose operands have four axes is accepted by `flash_fwd` with
the output of the same type, and by `flash_bwd` with gradients of the types of its
operands. The fused operators are given the causal flag and the scale of the call.
-/

namespace TraceSubstitution

open Attention (Accepts Settled)

namespace Flash

theorem proper_withAttrs {s : Signature} (hs : s.Built) (hattrs : s.attrs = []) :
    (withAttrs s).Proper := by
  have heq : (withAttrs s).attrs = (withAttrs .empty).attrs := by
    simp [withAttrs, Signature.attr, hattrs, Signature.empty]
  refine ⟨.attr _ _ _ (.attr _ _ _ hs), ?_, ?_⟩
  · rw [heq]
    decide
  · rw [heq]
    intro p hp v hv
    have hp : p = ⟨"is_causal", .bool, some (.bool false)⟩ ∨
        p = ⟨"scale", .optionalFloat, some .unset⟩ := by
      simpa [withAttrs, Signature.attr, Signature.empty, AttrValue.widen] using hp
    rcases hp with rfl | rfl <;> obtain rfl := Option.some.inj hv <;> rfl

theorem proper_forwardSignature : forwardSignature.Proper :=
  proper_withAttrs (.tensor _ (.tensor _ (.tensor _ .empty))) rfl

theorem proper_backwardSignature : backwardSignature.Proper :=
  proper_withAttrs (.tensor _ (.tensor _ (.tensor _ (.tensor _ (.tensor _ (.tensor _ .empty)))))) rfl

theorem bindAttrs_forwardSignature (op : String) (causal : Bool) (scale : Float) :
    forwardSignature.bindAttrs op (callAttrs causal scale) = .ok (callAttrs causal scale) := rfl

theorem bindAttrs_backwardSignature (op : String) (causal : Bool) (scale : Float) :
    backwardSignature.bindAttrs op (callAttrs causal scale) = .ok (callAttrs causal scale) := rfl

variable {query key value output : TensorType} {mask : Option TensorType}

/-- `flash_fwd` accepts what attention accepts, with an output of the same type. -/
theorem forwardTypes_eq_ok (h : Accepts query key value mask output) (hrank : query.rank = 4) :
    ∃ lse, ∀ op attrs, forwardTypes ⟨op, [some query, some key, some value], attrs⟩ =
      .ok (output, lse) := by
  have hkeyRank : key.rank = 4 := h.keyRank.trans hrank
  have hvalueRank : value.rank = 4 := h.valueRank.trans hrank
  have hbatch : ∀ {type : TensorType}, query.dims.take (query.rank - 2) =
      type.dims.take (query.rank - 2) → ∀ axis < 2, ∃ size, query.dims[axis]? = some size ∧
        type.dims[axis]? = some size := by
    intro type hsame axis haxis
    obtain ⟨size, hsize⟩ : ∃ size, query.dims[axis]? = some size :=
      Attention.getElem?_dims_of_lt (by omega)
    refine ⟨size, hsize, ?_⟩
    have hget := congrArg (·[axis]?) hsame
    simp only [hrank, List.getElem?_take, if_pos haxis] at hget
    rw [← hget, hsize]
  have hdepth := h.depth
  have hlength := h.length
  rw [hrank] at hdepth hlength
  obtain ⟨width, shape, hwidth, hshape, houtput⟩ := h.output
  have hlse : ∃ lse, Shape.ofDims? (query.dims.take 3) = some lse := by
    refine ⟨⟨query.dims.take 3⟩, Shape.ofDims?_eq_some_iff.2 ⟨fun hnil => ?_, rfl⟩⟩
    have hlength := congrArg List.length hnil
    rw [List.length_take] at hlength
    have : query.dims.length = 4 := hrank
    simp [this] at hlength
  obtain ⟨lse, hlse⟩ := hlse
  refine ⟨⟨lse, .f32, query.device⟩, fun op attrs => ?_⟩
  have hquery : (⟨op, [some query, some key, some value], attrs⟩ : Operands TensorType).tensor 0 =
    .ok query := rfl
  have hkey : (⟨op, [some query, some key, some value], attrs⟩ : Operands TensorType).tensor 1 =
    .ok key := rfl
  have hvalue : (⟨op, [some query, some key, some value], attrs⟩ : Operands TensorType).tensor 2 =
    .ok value := rfl
  unfold forwardTypes
  rw [hquery, hkey, hvalue]
  simp only [ok_bind, Require.rank_eq_ok_iff.2 hrank, Require.rank_eq_ok_iff.2 hkeyRank,
    Require.rank_eq_ok_iff.2 hvalueRank, Require.sameDType_eq_ok_iff.2 h.keyDType,
    Require.sameDType_eq_ok_iff.2 h.valueDType, Require.sameDevice_eq_ok_iff.2 h.keyDevice,
    Require.sameDevice_eq_ok_iff.2 h.valueDevice,
    Require.sameDim_eq_ok_iff.2 (hbatch h.keyBatch 0 (by decide)),
    Require.sameDim_eq_ok_iff.2 (hbatch h.keyBatch 1 (by decide)),
    Require.sameDim_eq_ok_iff.2 (hbatch h.valueBatch 0 (by decide)),
    Require.sameDim_eq_ok_iff.2 (hbatch h.valueBatch 1 (by decide)),
    Require.sameDim_eq_ok_iff.2 hdepth, Require.sameDim_eq_ok_iff.2 hlength,
    Require.lastDim_eq_ok_iff.2 hwidth, Require.withLastDim_eq_ok_iff.2 ⟨shape, hshape, houtput⟩,
    hlse, orPanic_some, pure_eq_ok]

/-- `flash_bwd` accepts the operands and outputs of `flash_fwd`. -/
theorem backwardTypes_eq_ok {lse : TensorType} (h : ∀ op attrs,
    forwardTypes ⟨op, [some query, some key, some value], attrs⟩ = .ok (output, lse)) (op : String)
    (attrs : Attrs) : backwardTypes ⟨op, [some output, some query, some key, some value,
      some output, some lse], attrs⟩ = .ok [query, key, value] := by
  let args : Operands TensorType := ⟨op, [some output, some query, some key, some value,
    some output, some lse], attrs⟩
  have h0 : args.tensor 0 = .ok output := rfl
  have h1 : args.tensor 1 = .ok query := rfl
  have h2 : args.tensor 2 = .ok key := rfl
  have h3 : args.tensor 3 = .ok value := rfl
  have h4 : args.tensor 4 = .ok output := rfl
  have h5 : args.tensor 5 = .ok lse := rfl
  change backwardTypes args = _
  unfold backwardTypes
  simp only [h0, h1, h2, h3, h4, h5, ok_bind, h, decide_true, Bool.and_self, ensure_true,
    pure_eq_ok]

/-- What the checker has seen of a call that it admits. -/
theorem of_admits {config : FlashConfig} {available : Bool} {args : Operands Symbol}
    (h : admits config available args = true) : available = true ∧ ∃ q k v,
      args.optional 0 = some q ∧ args.optional 1 = some k ∧ args.optional 2 = some v ∧
        args.optional 3 = none ∧ q.type.rank = 4 := by
  unfold admits at h
  split at h
  · next q k v hq hk hv =>
    simp only [Bool.and_eq_true, decide_eq_true_iff, Option.isNone_iff_eq_none, List.all_cons,
      admitsOperand] at h
    obtain ⟨⟨⟨⟨⟨⟨havailable, ⟨⟨hrank, -⟩, -⟩, -⟩, hmask⟩, -⟩, -⟩, -⟩, -⟩ := h
    exact ⟨havailable, q, k, v, hq, hk, hv, hmask, hrank⟩
  · exact absurd h Bool.false_ne_true

/-- The fused operators are given the causal flag and the scale of the call. -/
theorem Call.ofOperands_eq_ok {args : Operands Symbol} {q k v : Symbol}
    (hq : args.optional 0 = some q) (hk : args.optional 1 = some k) (hv : args.optional 2 = some v)
    {dropout : Float} {causal : Bool} {scale : Option Float} {seed : Int64}
    (hattrs : Settled args.attrs dropout causal scale seed) {depth : Nat}
    (hdepth : q.type.shape.lastDim? = some depth) : Call.ofOperands args =
      .ok ⟨q, k, v, callAttrs causal (scale.getD (1.0 / (Float.ofNat depth).sqrt))⟩ := by
  unfold Call.ofOperands
  rw [Operands.tensor_eq_ok_iff.2 hq, Operands.tensor_eq_ok_iff.2 hk,
    Operands.tensor_eq_ok_iff.2 hv]
  simp only [ok_bind, Require.lastDim_eq_ok_iff.2 hdepth, hattrs.softmaxScale, hattrs.causal,
    pure_eq_ok]

end Flash

end TraceSubstitution
