import TraceSubstitution.Proofs.Flash.Output
import TraceSubstitution.Proofs.Flash.Typing
import TraceSubstitution.Proofs.Operator.Inference

/-!
# Type inference of the fused operators

The fused operators infer their types without a panic, whatever axes the operands
have: all axes that are compared exist once the operands have four of them. The
operands of an accepted call have the sizes of one layout, and the outputs that are
inferred follow from it (`exists_of_forwardTypes`).
-/

namespace TraceSubstitution

namespace Flash

variable {args : Operands TensorType} {output lse : TensorType} {types : List TensorType}

/-- Two types with four axes agree along the axes that have been compared. -/
theorem sameDim_eq {lhsName rhsName : String} {lhs rhs : TensorType} {axis : Nat}
    (h : Require.sameDim axis lhsName lhs rhsName rhs = .ok ()) :
    lhs.dims[axis]? = rhs.dims[axis]? := by
  obtain ⟨size, hl, hr⟩ := Require.sameDim_eq_ok_iff.1 h
  rw [hl, hr]

/-- What `flash_fwd` accepts. -/
theorem exists_of_forwardTypes (h : forwardTypes args = .ok (output, lse)) :
    ∃ q k v, args.optional 0 = some q ∧ args.optional 1 = some k ∧ args.optional 2 = some v ∧
      ∃ (l : Layout) (outer inner : Nat), l.Describes outer inner q k v ∧
        output = q.withShape ⟨[outer, inner] ++ [l.queries, l.valueDepth]⟩ ∧
        lse = ⟨⟨[outer, inner, l.queries]⟩, .f32, q.device⟩ := by
  unfold forwardTypes at h
  obtain ⟨q, hq, h⟩ := bind_eq_ok_iff.1 h
  obtain ⟨k, hk, h⟩ := bind_eq_ok_iff.1 h
  obtain ⟨v, hv, h⟩ := bind_eq_ok_iff.1 h
  rw [Operands.tensor_eq_ok_iff] at hq hk hv
  simp only [check_bind_eq_ok_iff, Require.rank_eq_ok_iff] at h
  obtain ⟨hqRank, hkRank, hvRank, -, -, -, -, hk0, hv0, hk1, hv1, hk3, hv2, h⟩ := h
  obtain ⟨outer, inner, queries, depth, hqAxes⟩ := exists_hasAxes hqRank
  obtain ⟨kOuter, kInner, keys, kDepth, hkAxes⟩ := exists_hasAxes hkRank
  obtain ⟨vOuter, vInner, vKeys, valueDepth, hvAxes⟩ := exists_hasAxes hvRank
  have hsame : ∀ {lhs rhs : TensorType} {axis : Nat} {ls rs : List Nat}, lhs.dims = ls →
      rhs.dims = rs → lhs.dims[axis]? = rhs.dims[axis]? → ls[axis]? = rs[axis]? := by
    rintro lhs rhs axis _ _ rfl rfl heq
    exact heq
  obtain rfl : outer = kOuter := Option.some.inj (hsame hqAxes hkAxes (sameDim_eq hk0))
  obtain rfl : outer = vOuter := Option.some.inj (hsame hqAxes hvAxes (sameDim_eq hv0))
  obtain rfl : inner = kInner := Option.some.inj (hsame hqAxes hkAxes (sameDim_eq hk1))
  obtain rfl : inner = vInner := Option.some.inj (hsame hqAxes hvAxes (sameDim_eq hv1))
  obtain rfl : depth = kDepth := Option.some.inj (hsame hqAxes hkAxes (sameDim_eq hk3))
  obtain rfl : keys = vKeys := Option.some.inj (hsame hkAxes hvAxes (sameDim_eq hv2))
  have htake : q.dims.take 3 = [outer, inner, queries] := by
    rw [show q.dims = _ from hqAxes]
    rfl
  rw [Require.lastDim_eq_ok_iff.2 hvAxes.lastDim?, ok_bind, hqAxes.withLastDim, htake] at h
  obtain ⟨rfl, rfl⟩ := Prod.ext_iff.1 (Except.ok.inj h)
  exact ⟨q, k, v, hq, hk, hv, ⟨outer * inner, queries, keys, depth, valueDepth⟩, outer, inner,
    ⟨rfl, hqAxes, hkAxes, hvAxes⟩, rfl, rfl⟩

/-- What `flash_bwd` accepts. -/
theorem exists_of_backwardTypes (h : backwardTypes args = .ok types) :
    ∃ dOut q k v lse, args.optional 0 = some dOut ∧ args.optional 1 = some q ∧
      args.optional 2 = some k ∧ args.optional 3 = some v ∧ args.optional 4 = some dOut ∧
      args.optional 5 = some lse ∧ types = [q, k, v] ∧
      forwardTypes { args with tensors := [some q, some k, some v] } = .ok (dOut, lse) := by
  unfold backwardTypes at h
  obtain ⟨dOut, hdOut, h⟩ := bind_eq_ok_iff.1 h
  obtain ⟨q, hq, h⟩ := bind_eq_ok_iff.1 h
  obtain ⟨k, hk, h⟩ := bind_eq_ok_iff.1 h
  obtain ⟨v, hv, h⟩ := bind_eq_ok_iff.1 h
  obtain ⟨⟨expectedOut, expectedLse⟩, hforward, h⟩ := bind_eq_ok_iff.1 h
  obtain ⟨out, hout, h⟩ := bind_eq_ok_iff.1 h
  obtain ⟨lse, hlse, h⟩ := bind_eq_ok_iff.1 h
  obtain ⟨hsame, h⟩ := check_bind_eq_ok_iff.1 h
  obtain ⟨hsameLse, hpure⟩ := check_bind_eq_ok_iff.1 h
  simp only [ensure_eq_ok_iff, Bool.and_eq_true, decide_eq_true_iff] at hsame hsameLse
  obtain ⟨rfl, rfl⟩ := hsame
  obtain rfl := hsameLse
  rw [Operands.tensor_eq_ok_iff] at hdOut hq hk hv hout hlse
  exact ⟨_, q, k, v, _, hdOut, hq, hk, hv, hout, hlse, (Except.ok.inj hpure).symm, hforward⟩

theorem reports_forwardTypes (args : Operands TensorType) :
    Reports (forwardTypes args) fun _ => True := by
  unfold forwardTypes
  refine (args.reports_tensor 0).bind fun q _ _ => ?_
  refine (args.reports_tensor 1).bind fun k _ _ => ?_
  refine (args.reports_tensor 2).bind fun v _ _ => ?_
  refine Require.reports_rank.bind fun _ hq _ => ?_
  refine Require.reports_rank.bind fun _ hk _ => ?_
  refine Require.reports_rank.bind fun _ hv _ => ?_
  replace hq : q.rank = 4 := Require.rank_eq_ok_iff.1 hq
  replace hk : k.rank = 4 := Require.rank_eq_ok_iff.1 hk
  replace hv : v.rank = 4 := Require.rank_eq_ok_iff.1 hv
  refine Require.reports_sameDType.bind fun _ _ _ => ?_
  refine Require.reports_sameDType.bind fun _ _ _ => ?_
  refine Require.reports_sameDevice.bind fun _ _ _ => ?_
  refine Require.reports_sameDevice.bind fun _ _ _ => ?_
  refine (Require.reports_sameDim (by omega) (by omega)).bind fun _ _ _ => ?_
  refine (Require.reports_sameDim (by omega) (by omega)).bind fun _ _ _ => ?_
  refine (Require.reports_sameDim (by omega) (by omega)).bind fun _ _ _ => ?_
  refine (Require.reports_sameDim (by omega) (by omega)).bind fun _ _ _ => ?_
  refine (Require.reports_sameDim (by omega) (by omega)).bind fun _ _ _ => ?_
  refine (Require.reports_sameDim (by omega) (by omega)).bind fun _ _ _ => ?_
  refine (Require.reports_lastDim (by omega)).bind fun width _ _ => ?_
  refine (Require.reports_withLastDim (by omega)).bind fun out _ _ => ?_
  obtain ⟨outer, inner, rows, width, haxes⟩ := exists_hasAxes hq
  rw [show q.dims = _ from haxes]
  trivial

theorem reports_backwardTypes (args : Operands TensorType) :
    Reports (backwardTypes args) fun _ => True := by
  unfold backwardTypes
  refine (args.reports_tensor 0).bind fun dOut _ _ => ?_
  refine (args.reports_tensor 1).bind fun q _ _ => ?_
  refine (args.reports_tensor 2).bind fun k _ _ => ?_
  refine (args.reports_tensor 3).bind fun v _ _ => ?_
  refine (reports_forwardTypes _).bind fun expected _ _ => ?_
  refine (args.reports_tensor 4).bind fun out _ _ => ?_
  refine (args.reports_tensor 5).bind fun lse _ _ => ?_
  refine reports_ensure_bind fun _ => ?_
  exact reports_ensure_bind fun _ => trivial

end Flash

end TraceSubstitution
