import TraceSubstitution.Proofs.Attention.Sizes
import TraceSubstitution.Proofs.Operator.Inference

/-!
# Type inference of attention

The types of the output and of the gradients are inferred without a panic for all
operands that have an axis: the axes that are compared exist once the ranks have
been compared. The backward operator accepts a call only if attention accepts its
operands, with the type of the gradient that flows in as that of the output.
-/

namespace TraceSubstitution

namespace Attention

variable {query key mask output : TensorType} {args : Operands TensorType}
  {types : List TensorType}

theorem reports_maskStrides (hrank : 2 ≤ query.rank) (hkey : key.rank = query.rank)
    (hmask : mask.dims ≠ []) : Reports (maskStrides query key mask) fun _ => True := by
  have hdims : Reports (scoreDims query key) fun _ => True := by
    unfold scoreDims
    rw [if_neg (Nat.not_lt.2 hrank)]
    exact (Require.reports_dim (by omega)).bind fun _ _ _ => trivial
  exact hdims.bind fun _ _ _ => reports_broadcastStrides hmask

theorem reports_checkMask (hrank : 2 ≤ query.rank) (hkey : key.rank = query.rank)
    (hmask : mask.dims ≠ []) : Reports (checkMask query key mask) fun _ => True := by
  unfold checkMask
  refine Require.reports_sameDevice.bind fun _ _ _ => ?_
  exact reports_ensure_bind fun _ => ends_map.2 (reports_maskStrides hrank hkey hmask)

theorem reports_outputType (h : ∀ i type, args.optional i = some type → type.dims ≠ []) :
    Reports (outputType args) fun _ => True := by
  unfold outputType
  refine (args.reports_tensor 0).bind fun query _ _ => ?_
  refine (args.reports_tensor 1).bind fun key _ _ => ?_
  refine (args.reports_tensor 2).bind fun value _ _ => ?_
  refine reports_ensure_bind fun hrank => ?_
  refine reports_ensure_bind fun hranks => ?_
  rw [decide_eq_true_iff] at hrank
  simp only [Bool.and_eq_true, decide_eq_true_iff] at hranks
  obtain ⟨hkeyRank, hvalueRank⟩ := hranks
  refine reports_ensure_bind fun _ => ?_
  refine Require.reports_sameDType.bind fun _ _ _ => ?_
  refine Require.reports_sameDType.bind fun _ _ _ => ?_
  refine Require.reports_sameDevice.bind fun _ _ _ => ?_
  refine Require.reports_sameDevice.bind fun _ _ _ => ?_
  refine reports_ensure_bind fun _ => ?_
  refine (Require.reports_sameDim (by omega) (by omega)).bind fun _ _ _ => ?_
  refine (Require.reports_sameDim (by omega) (by omega)).bind fun _ _ _ => ?_
  have hlast : Reports (do
      let dropout ← args.attrs.float "dropout_p"
      ensure (0 ≤ dropout && dropout < 1) (.attention (.dropoutOutOfRange dropout))
      Require.withLastDim query (← Require.lastDim value)) fun _ => True := by
    refine (args.attrs.reports_float _).bind fun dropout _ _ => ?_
    refine reports_ensure_bind fun _ => ?_
    exact (Require.reports_lastDim (by omega)).bind fun _ _ _ =>
      Require.reports_withLastDim (by omega)
  split
  · next mask hmask =>
    exact (reports_checkMask hrank hkeyRank (h 3 mask hmask)).bind fun _ _ _ => hlast
  · exact hlast

/-- What the backward operator accepts. -/
theorem exists_of_gradientTypes (h : gradientTypes args = .ok types) :
    ∃ output query key value, args.optional 0 = some output ∧ args.optional 1 = some query ∧
      args.optional 2 = some key ∧ args.optional 3 = some value ∧
      outputType { args with tensors := [some query, some key, some value, args.optional 4] } =
        .ok output ∧ types = [query, key, value] := by
  unfold gradientTypes at h
  obtain ⟨gradient, hgradient, h⟩ := bind_eq_ok_iff.1 h
  obtain ⟨query, hquery, h⟩ := bind_eq_ok_iff.1 h
  obtain ⟨key, hkey, h⟩ := bind_eq_ok_iff.1 h
  obtain ⟨value, hvalue, h⟩ := bind_eq_ok_iff.1 h
  obtain ⟨output, houtput, h⟩ := bind_eq_ok_iff.1 h
  obtain ⟨hsame, hpure⟩ := check_bind_eq_ok_iff.1 h
  obtain rfl : gradient = output := of_decide_eq_true (ensure_eq_ok_iff.1 hsame)
  rw [Operands.tensor_eq_ok_iff] at hgradient hquery hkey hvalue
  exact ⟨gradient, query, key, value, hgradient, hquery, hkey, hvalue, houtput,
    (Except.ok.inj hpure).symm⟩

theorem reports_gradientTypes (h : ∀ i type, args.optional i = some type → type.dims ≠ []) :
    Reports (gradientTypes args) fun _ => True := by
  unfold gradientTypes
  refine (args.reports_tensor 0).bind fun gradient _ _ => ?_
  refine (args.reports_tensor 1).bind fun query hquery _ => ?_
  refine (args.reports_tensor 2).bind fun key hkey _ => ?_
  refine (args.reports_tensor 3).bind fun value hvalue _ => ?_
  refine (reports_outputType fun i type htype => ?_).bind fun output _ _ => by simp
  match i, htype with
  | 0, htype => exact h 1 type ((Operands.tensor_eq_ok_iff.1 hquery).trans htype)
  | 1, htype => exact h 2 type ((Operands.tensor_eq_ok_iff.1 hkey).trans htype)
  | 2, htype => exact h 3 type ((Operands.tensor_eq_ok_iff.1 hvalue).trans htype)
  | 3, htype => exact h 4 type htype

end Attention

end TraceSubstitution
