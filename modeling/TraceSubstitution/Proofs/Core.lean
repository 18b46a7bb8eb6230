import TraceSubstitution.Core
import TraceSubstitution.Proofs.Operator.Contract

/-!
# Sums and zeros

`core::add` accepts two operands of one type, and then its output has this type
and can be computed. `core::zeros_like` accepts any operand. Both fulfil their
contracts, and work in no buffers.
-/

namespace TraceSubstitution

namespace Tensor

variable {α : Type} [Scalar α]

theorem ofElements_eq_ok {type : TensorType} {xs : Array α} (h : xs.size = type.numElements) :
    ∃ t, ofElements type xs = .ok t ∧ t.type = type := by
  unfold ofElements
  rw [dif_pos h]
  exact ⟨_, rfl, rfl⟩

theorem add_eq_ok {t u : Tensor α} (h : t.type = u.type) :
    ∃ v, t.add u = .ok v ∧ v.type = t.type := by
  have hsize : (List.zipWith (· + ·) t.elements u.elements).toArray.size = t.type.numElements := by
    rw [List.size_toArray, List.length_zipWith, length_elements, length_elements, size, size, h,
      Nat.min_self]
  obtain ⟨v, hv, htype⟩ := ofElements_eq_ok hsize
  refine ⟨v, ?_, htype⟩
  unfold add
  rw [ensure_eq_ok_iff.2 (decide_eq_true h)]
  exact hv

end Tensor

namespace Core

theorem sumType_eq_ok_iff {args : Operands TensorType} {type : TensorType} :
    sumType args = .ok type ↔ args.optional 0 = some type ∧ args.optional 1 = some type := by
  unfold sumType Require.sameShape Require.sameDType Require.sameDevice
  simp only [bind_eq_ok_iff, Operands.tensor_eq_ok_iff, pure_eq_ok, Except.ok.injEq]
  constructor
  · rintro ⟨lhs, hlhs, rhs, hrhs, _, hshape, _, hdtype, _, hdevice, rfl⟩
    have hshape : lhs.shape = rhs.shape := of_decide_eq_true (ensure_eq_ok_iff.1 hshape)
    have hdtype : lhs.dtype = rhs.dtype := of_decide_eq_true (ensure_eq_ok_iff.1 hdtype)
    have hdevice : lhs.device = rhs.device := of_decide_eq_true (ensure_eq_ok_iff.1 hdevice)
    obtain ⟨shape, dtype, device⟩ := lhs
    obtain ⟨shape', dtype', device'⟩ := rhs
    obtain rfl : shape = shape' := hshape
    obtain rfl : dtype = dtype' := hdtype
    obtain rfl : device = device' := hdevice
    exact ⟨hlhs, hrhs⟩
  · rintro ⟨hlhs, hrhs⟩
    exact ⟨type, hlhs, type, hrhs, (), by simp, (), by simp, (), by simp, rfl⟩

variable {α : Type} [Scalar α]

theorem inferBound_add_eq_ok_iff {operands : List (Option TensorType)} {bound : Attrs}
    {types : List TensorType} : (add : Operator α).inferBound operands bound = .ok types ↔
      ∃ type, operands[0]?.join = some type ∧ operands[1]?.join = some type ∧ types = [type] := by
  unfold Operator.inferBound
  rw [withContext_eq_ok_iff]
  change (sumType _ >>= fun type => pure [type]) = _ ↔ _
  simp only [bind_eq_ok_iff, sumType_eq_ok_iff, pure_eq_ok, Except.ok.injEq, Operands.optional]
  constructor
  · rintro ⟨type, ⟨hlhs, hrhs⟩, rfl⟩
    exact ⟨type, hlhs, hrhs, rfl⟩
  · rintro ⟨type, hlhs, hrhs, rfl⟩
    exact ⟨type, ⟨hlhs, hrhs⟩, rfl⟩

theorem bind_add {τ : Type} (lhs rhs : τ) :
    (add : Operator α).bind [some lhs, some rhs] .empty = .ok .empty := rfl

theorem infer_add (type : TensorType) :
    (add : Operator α).infer [some type, some type] .empty = .ok [type] :=
  Operator.infer_eq_ok_iff.2 ⟨.empty, rfl, inferBound_add_eq_ok_iff.2 ⟨type, rfl, rfl, rfl⟩⟩

/-- Tensors of one type can be added. -/
theorem executeVerified_add {x y : Tensor α} (h : x.type = y.type) :
    ∃ z, (add : Operator α).executeVerified [some x, some y] .empty = .ok [z] := by
  have hdense : x.contiguous.type = y.contiguous.type := by
    rw [Tensor.type_contiguous, Tensor.type_contiguous, h]
  obtain ⟨z, hz, htype⟩ := Tensor.add_eq_ok hdense
  rw [Tensor.type_contiguous] at htype
  refine ⟨z, Operator.executeVerified_eq_ok_iff.2 ⟨?_, ?_⟩⟩
  · change withContext _ (do return [← x.contiguous.add y.contiguous]) = _
    rw [hz]
    rfl
  · change add.infer [some x.type, some y.type] .empty = .ok [z.type]
    rw [← h, htype, infer_add]

theorem reports_sumType (args : Operands TensorType) : Reports (sumType args) fun _ => True := by
  unfold sumType
  refine (args.reports_tensor 0).bind fun lhs _ _ => ?_
  refine (args.reports_tensor 1).bind fun rhs _ _ => ?_
  refine Require.reports_sameShape.bind fun _ _ _ => ?_
  refine Require.reports_sameDType.bind fun _ _ _ => ?_
  exact Require.reports_sameDevice.bind fun _ _ _ => trivial

theorem fulfils_add : (add : Operator α).Fulfils fun _ => [] := by
  refine Operator.fulfils (fun args _ => ?_)
    fun {tensors attrs bound outputs} hlength _ htypes _ => ?_
  · exact (reports_sumType args).bind fun _ _ _ => trivial
  · obtain ⟨lhs, rhs, rfl⟩ := List.length_eq_two.1 hlength
    obtain ⟨type, hsum, hpure⟩ := bind_eq_ok_iff.1 htypes
    obtain rfl : [type] = outputs := Except.ok.inj hpure
    obtain ⟨hlhs, hrhs⟩ := sumType_eq_ok_iff.1 hsum
    obtain ⟨x, rfl, hx⟩ := Tensor.exists_of_type (show lhs.map Tensor.type = _ from hlhs)
    obtain ⟨y, rfl, hy⟩ := Tensor.exists_of_type (show rhs.map Tensor.type = _ from hrhs)
    have hsame : x.contiguous.type = y.contiguous.type := by
      rw [Tensor.type_contiguous, Tensor.type_contiguous, hx, hy]
    obtain ⟨z, hz, hztype⟩ := Tensor.add_eq_ok hsame
    rw [Tensor.type_contiguous, hx] at hztype
    change Returns (do return [← x.contiguous.add y.contiguous]) _
    rw [hz]
    exact congrArg (fun type => [type]) hztype

theorem fulfils_zerosLike : (zerosLike : Operator α).Fulfils fun _ => [] := by
  refine Operator.fulfils (fun args _ => ?_)
    fun {tensors attrs bound outputs} hlength _ htypes _ => ?_
  · exact (args.reports_tensor 0).bind fun _ _ _ => trivial
  · obtain ⟨input, rfl⟩ := List.length_eq_one_iff.1 hlength
    obtain ⟨type, htype, hpure⟩ := bind_eq_ok_iff.1 htypes
    obtain rfl : [type] = outputs := Except.ok.inj hpure
    obtain ⟨x, rfl, hx⟩ := Tensor.exists_of_type
      (show input.map Tensor.type = _ from Operands.tensor_eq_ok_iff.1 htype)
    change [x.contiguous.type] = [type]
    rw [Tensor.type_contiguous, hx]

end Core

end TraceSubstitution
