import TraceSubstitution.Proofs.Attention.Mask
import TraceSubstitution.Proofs.Attention.Typing

/-!
# The sizes of a call of attention

The operands of an accepted call have the same leading axes and two more axes
each (`TensorType.HasAxes`). `Problem.Posed` says that the operands of a call pose a
problem: each of them lies in one piece and has the sizes of the problem, and the
mask fits its scores. Accepted operands pose the problem that `Problem.ofOperands`
finds (`posed_of_accepts`).
-/

namespace TraceSubstitution

theorem eq_take_append_pair {β : Type} {xs : List β} {n : Nat} {a b : β}
    (hlength : xs.length = n + 2) (ha : xs[n]? = some a) (hb : xs[n + 1]? = some b) :
    xs = xs.take n ++ [a, b] := by
  apply List.ext_getElem?
  intro i
  rw [List.getElem?_append, List.length_take, Nat.min_eq_left (by omega)]
  split
  · next hi => rw [List.getElem?_take_of_lt hi]
  · next hi =>
    obtain ⟨j, rfl⟩ := Nat.exists_eq_add_of_le (Nat.not_lt.1 hi)
    rw [Nat.add_sub_cancel_left]
    match j with
    | 0 => exact ha
    | 1 => exact hb
    | j + 2 => rw [List.getElem?_eq_none (by omega), List.getElem?_eq_none (by simp)]

namespace TensorType

/-- The type has leading axes `batch`, and two more of the given sizes. -/
def HasAxes (type : TensorType) (batch : List Nat) (rows width : Nat) : Prop :=
  type.dims = batch ++ [rows, width]

namespace HasAxes

variable {type : TensorType} {batch : List Nat} {rows width : Nat}

theorem rank_eq (h : type.HasAxes batch rows width) : type.rank = batch.length + 2 := by
  have hlength := congrArg List.length h
  rwa [List.length_append] at hlength

theorem take_rows (h : type.HasAxes batch rows width) :
    type.dims.take (type.rank - 1) = batch ++ [rows] := by
  rw [h.rank_eq, show type.dims = _ from h, Nat.add_succ_sub_one, List.take_length_add_append]
  rfl

theorem getElem?_rows (h : type.HasAxes batch rows width) :
    type.dims[type.rank - 2]? = some rows := by
  rw [h.rank_eq, show type.dims = _ from h, Nat.add_sub_cancel, List.getElem?_append_right
    (Nat.le_refl _), Nat.sub_self]
  rfl

theorem lastDim? (h : type.HasAxes batch rows width) : type.shape.lastDim? = some width := by
  unfold Shape.lastDim?
  rw [show type.shape.dims = _ from h, List.getLast?_append]
  rfl

theorem withLastDim (h : type.HasAxes batch rows width) (size : Nat) :
    Require.withLastDim type size = .ok (type.withShape ⟨batch ++ [rows, size]⟩) := by
  refine Require.withLastDim_eq_ok_iff.2 ⟨_, ?_, rfl⟩
  unfold Shape.withLastDim?
  rw [show type.shape.dims = _ from h, if_neg (by simp), List.dropLast_append_of_ne_nil (by simp),
    List.append_assoc]
  rfl

theorem numElements (h : type.HasAxes batch rows width) :
    type.numElements = volume batch * rows * width := by
  unfold TensorType.numElements Shape.numElements
  rw [show type.shape.dims = _ from h]
  simp [Nat.mul_assoc]

theorem withShape (type : TensorType) (batch : List Nat) (rows width : Nat) :
    (type.withShape ⟨batch ++ [rows, width]⟩).HasAxes batch rows width := rfl

end HasAxes

end TensorType

namespace Attention

namespace Problem

variable {α : Type} [Scalar α] {p : Problem α} {args : Operands (Tensor α)}

/-- The operands of a call, each in one piece, pose a problem: they have its sizes, and the mask
fits its scores. -/
structure Posed (p : Problem α) (args : Operands (Tensor α)) (q k v : Tensor α)
    (batch : List Nat) : Prop where
  problem : ofOperands args = .ok p
  query : args.optional 0 = some q.contiguous
  key : args.optional 1 = some k.contiguous
  value : args.optional 2 = some v.contiguous
  mask : ∀ m, args.optional 3 = some m → ∃ t : Tensor α, m = t.contiguous ∧
    ∃ strides, maskStrides q.type k.type t.type = .ok strides
  size : p.batch = volume batch
  queryAxes : q.type.HasAxes batch p.queries p.depth
  keyAxes : k.type.HasAxes batch p.keys p.depth
  valueAxes : v.type.HasAxes batch p.keys p.valueDepth

/-- The sizes of a problem are read off the operands. -/
theorem sizes_of_ofOperands {q k v : Tensor α} (h : ofOperands args = .ok p)
    (hq : args.optional 0 = some q) (hk : args.optional 1 = some k)
    (hv : args.optional 2 = some v) :
    p.batch = volume (q.type.dims.take (q.type.rank - 2)) ∧
      q.type.dims[q.type.rank - 2]? = some p.queries ∧
      k.type.dims[q.type.rank - 2]? = some p.keys ∧
      q.type.shape.lastDim? = some p.depth ∧ v.type.shape.lastDim? = some p.valueDepth := by
  unfold ofOperands at h
  rw [Operands.tensor_eq_ok_iff.2 hq, Operands.tensor_eq_ok_iff.2 hk,
    Operands.tensor_eq_ok_iff.2 hv] at h
  simp only [ok_bind] at h
  obtain ⟨depth, hdepth, h⟩ := bind_eq_ok_iff.1 h
  split at h
  · exact nomatch h
  · obtain ⟨queries, hqueries, h⟩ := bind_eq_ok_iff.1 h
    obtain ⟨keys, hkeys, h⟩ := bind_eq_ok_iff.1 h
    obtain ⟨valueDepth, hvalueDepth, h⟩ := bind_eq_ok_iff.1 h
    obtain ⟨scale, -, h⟩ := bind_eq_ok_iff.1 h
    obtain ⟨causal, -, h⟩ := bind_eq_ok_iff.1 h
    obtain ⟨dropout, -, h⟩ := bind_eq_ok_iff.1 h
    obtain ⟨seed, -, h⟩ := bind_eq_ok_iff.1 h
    obtain rfl := Except.ok.inj h
    exact ⟨rfl, Require.dim_eq_ok_iff.1 hqueries, Require.dim_eq_ok_iff.1 hkeys,
      Require.lastDim_eq_ok_iff.1 hdepth, Require.lastDim_eq_ok_iff.1 hvalueDepth⟩

end Problem

variable {α : Type} [Scalar α] {args : Operands (Tensor α)} {q k v : Tensor α}
  {mask : Option (Tensor α)} {output : TensorType}

theorem checkMask_eq_ok {query key mask : TensorType} (h : checkMask query key mask = .ok ()) :
    ∃ strides, maskStrides query key mask = .ok strides := by
  unfold checkMask at h
  obtain ⟨-, h⟩ := check_bind_eq_ok_iff.1 h
  obtain ⟨-, h⟩ := check_bind_eq_ok_iff.1 h
  cases hstrides : maskStrides query key mask with
  | ok strides => exact ⟨strides, rfl⟩
  | error e =>
    rw [hstrides] at h
    exact nomatch h

/-- Accepted operands have the same leading axes, and agree in two of the others. -/
theorem Accepts.hasAxes {q k v : TensorType} {mask : Option TensorType}
    (h : Accepts q k v mask output) {queries keys depth valueDepth : Nat}
    (hqueries : q.dims[q.rank - 2]? = some queries) (hkeys : k.dims[q.rank - 2]? = some keys)
    (hdepth : q.shape.lastDim? = some depth) (hwidth : v.shape.lastDim? = some valueDepth) :
    q.HasAxes (q.dims.take (q.rank - 2)) queries depth ∧
      k.HasAxes (q.dims.take (q.rank - 2)) keys depth ∧
      v.HasAxes (q.dims.take (q.rank - 2)) keys valueDepth := by
  obtain ⟨n, hrank⟩ := Nat.exists_eq_add_of_le' h.rank
  have hkeyRank := h.keyRank.trans hrank
  have hvalueRank := h.valueRank.trans hrank
  have hlast : ∀ {type : TensorType} {size : Nat}, type.rank = n + 2 →
      type.shape.lastDim? = some size → type.dims[n + 1]? = some size := by
    intro type size htype hsize
    unfold Shape.lastDim? at hsize
    rw [List.getLast?_eq_getElem?, show type.shape.dims.length = n + 2 from htype] at hsize
    exact hsize
  obtain ⟨_, hsameDepth, hkeyDepth⟩ := h.depth
  obtain ⟨_, hsameLength, hvalueKeys⟩ := h.length
  have hkeyBatch := h.keyBatch
  have hvalueBatch := h.valueBatch
  -- All three types have `n + 2` axes, so the same positions are counted from the end of each.
  rw [hrank, Nat.add_sub_cancel] at hqueries hkeys hsameLength hvalueKeys hkeyBatch hvalueBatch ⊢
  rw [hrank, Nat.add_succ_sub_one] at hsameDepth hkeyDepth
  obtain rfl := Option.some.inj (hsameDepth.symm.trans (hlast hrank hdepth))
  obtain rfl := Option.some.inj (hsameLength.symm.trans hkeys)
  refine ⟨eq_take_append_pair hrank hqueries hsameDepth, ?_, ?_⟩
  · rw [hkeyBatch]
    exact eq_take_append_pair hkeyRank hkeys hkeyDepth
  · rw [hvalueBatch]
    exact eq_take_append_pair hvalueRank hvalueKeys (hlast hvalueRank hwidth)

variable (args mask) in
/-- Accepted operands pose a problem, whose output has the inferred type. -/
theorem posed_of_accepts (hq : args.optional 0 = some q.contiguous)
    (hk : args.optional 1 = some k.contiguous) (hv : args.optional 2 = some v.contiguous)
    (hmask : args.optional 3 = mask.map Tensor.contiguous)
    (h : Accepts q.type k.type v.type (mask.map Tensor.type) output) {dropout : Float}
    {causal : Bool} {scale : Option Float} {seed : Int64}
    (hattrs : Settled args.attrs dropout causal scale seed) :
    ∃ (p : Problem α) (batch : List Nat), p.Posed args q k v batch ∧
      output = q.type.withShape ⟨batch ++ [p.queries, p.valueDepth]⟩ := by
  have hpos : 0 < q.contiguous.type.rank := by
    rw [Tensor.type_contiguous]
    exact Nat.lt_of_lt_of_le (by decide) h.rank
  obtain ⟨depth, hdepth⟩ := lastDim?_of_pos hpos
  have hdense : Accepts q.contiguous.type k.contiguous.type v.contiguous.type
      (mask.map Tensor.type) output := by
    simpa only [Tensor.type_contiguous] using h
  obtain ⟨p, hp, -, -⟩ := ofOperands_eq_ok hq hk hv hdense hattrs hdepth
  obtain ⟨hbatch, hqueries, hkeys, hdepth, hwidth⟩ := Problem.sizes_of_ofOperands hp hq hk hv
  simp only [Tensor.type_contiguous] at hbatch hqueries hkeys hdepth hwidth
  obtain ⟨hquery, hkey, hvalue⟩ := h.hasAxes hqueries hkeys hdepth hwidth
  refine ⟨p, _, ⟨hp, hq, hk, hv, ?_, hbatch, hquery, hkey, hvalue⟩, ?_⟩
  · intro m hm
    rw [hmask] at hm
    obtain ⟨t, rfl, rfl⟩ := Option.map_eq_some_iff.1 hm
    exact ⟨t, rfl, checkMask_eq_ok (h.mask t.type rfl)⟩
  · obtain ⟨width, shape, hwidth', hshape, rfl⟩ := h.output
    obtain rfl := Option.some.inj (hwidth'.symm.trans hwidth)
    have htype : Require.withLastDim q.type p.valueDepth = .ok (q.type.withShape shape) :=
      Require.withLastDim_eq_ok_iff.2 ⟨shape, hshape, rfl⟩
    exact Except.ok.inj (htype.symm.trans (hquery.withLastDim p.valueDepth))

end Attention

end TraceSubstitution
