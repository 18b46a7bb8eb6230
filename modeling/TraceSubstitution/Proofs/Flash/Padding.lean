import TraceSubstitution.Proofs.Builtin
import TraceSubstitution.Scalar.Single

/-!
# Padding cannot be seen

The kernel returns gradients whose rows are padded to a multiple of the alignment. The
columns that were added are zero (`Tensor.ZeroPadded`), and cutting them off gives
the same tensors as a kernel that does not pad at all: `flash_bwd` returns dense
gradients of the types of the operands, and no bit of them depends on the alignment
(`padding_invisible`).
-/

namespace TraceSubstitution

/-- Every element type holds zero. -/
class Scalar.KeepsZero (α : Type) [Scalar α] : Prop where
  narrow_zero : ∀ d, Scalar.narrow d (Scalar.zero : α) = Scalar.zero

instance : Scalar.KeepsZero Float32 where
  narrow_zero d := by cases d <;> rfl

namespace Flash

open Attention

variable {α : Type} [Scalar α]

/-- The gradient is as wide as the operand with its width rounded up to a multiple of the alignment,
and the columns that the operand does not have are zero. -/
def ZeroPadded (alignment : Nat) (operand : TensorType) (g : Tensor α) : Prop :=
  ∃ width, operand.shape.lastDim? = some width ∧
    g.type.shape.lastDim? = some (paddedWidth alignment width) ∧
    ∀ row column x, width ≤ column → column < paddedWidth alignment width →
      g.elements[row * paddedWidth alignment width + column]? = some x → x = Scalar.zero

theorem paddedWidth_one (width : Nat) : paddedWidth 1 width = width := by
  simp [paddedWidth]

theorem paddedSize_one_le (alignment : Nat) (type : TensorType) :
    paddedSize 1 type ≤ paddedSize alignment type := by
  unfold paddedSize
  rw [paddedWidth_one]
  exact Nat.mul_le_mul_left _ (le_paddedWidth _ _)

/-- Which kernel runs is not looked at when a call is bound. -/
theorem bind_backwardOperator (kernel kernel' : FlashKernel α)
    (tensors : List (Option (Tensor α))) (attrs : Attrs) :
    (backwardOperator kernel true).bind tensors attrs =
      (backwardOperator kernel' true).bind tensors attrs := by
  simp only [Operator.bind, Operator.qualifiedName, backwardOperator]

variable [Scalar.KeepsZero α]

theorem zeroPadded_paddedTensor {operand g : Tensor α} {batch : List Nat}
    {alignment rows width count : Nat} (h : operand.type.HasAxes batch rows width)
    {grid : List (List α)} (hgrid : IsGrid count width grid)
    (hg : paddedTensor operand (paddedWidth alignment width) grid = .ok g) :
    ZeroPadded alignment operand.type g := by
  unfold paddedTensor at hg
  rw [h.withLastDim, ok_bind] at hg
  obtain ⟨htype, helements, -⟩ := Tensor.of_ofElements_eq_ok hg
  refine ⟨width, h.lastDim?, ?_, fun row column x hcolumn hpadded hx => ?_⟩
  · rw [htype]
    exact (TensorType.HasAxes.withShape operand.type batch rows _).lastDim?
  · rw [helements, Array.toList_map, List.getElem?_map, Option.map_eq_some_iff] at hx
    obtain ⟨y, hy, rfl⟩ := hx
    obtain ⟨padded, hrow, hy⟩ := exists_of_getElem?_flatten
      (isGrid_padRow hgrid (le_paddedWidth alignment width)) hpadded hy
    obtain ⟨source, hsource, rfl⟩ := List.mem_map.1 hrow
    have hzero : y ∈ List.replicate (paddedWidth alignment width - source.length)
        (Scalar.zero : α) := by
      unfold padRow at hy
      rw [List.getElem?_append_right (hgrid.width source hsource ▸ hcolumn)] at hy
      exact List.mem_of_getElem? hy
    rw [List.eq_of_mem_replicate hzero]
    exact Scalar.KeepsZero.narrow_zero _

/-- The padding of the gradients cannot be seen. On all operands that `flash_bwd` accepts, however
they lie in memory, the kernel pads the gradients with zeros, and if the padded gradients can exist,
then `flash_bwd` returns dense tensors of the types of queries, keys and values. They are the same
as without padding. -/
theorem padding_invisible (config : FlashConfig) (blockSize : Nat) (probe : Bool)
    {tensors : List (Option (Tensor α))} {attrs : Attrs} {types : List TensorType}
    (hinfer : (backwardOperator (reference config blockSize probe : FlashKernel α) true).infer
      (tensors.map (·.map Tensor.type)) attrs = .ok types)
    (hpadded : ∀ size ∈ backwardScratch config (tensors.map (·.map Tensor.type)),
      size < bufferBound) :
    ∃ (x : FlashBackwardInput α) (dq dk dv : Tensor α),
      tensors = [some x.dOut, some x.q, some x.k, some x.v, some x.out, some x.lse] ∧
      (∀ (scale : α) (causal : Bool), ∃ g,
        (reference config blockSize probe).backward x.contiguous scale causal = .ok g ∧
          ZeroPadded config.headDimAlignment x.q.type g.dq ∧
          ZeroPadded config.headDimAlignment x.k.type g.dk ∧
          ZeroPadded config.headDimAlignment x.v.type g.dv) ∧
      (backwardOperator (reference config blockSize probe) true).execute tensors attrs =
        .ok [dq, dk, dv] ∧
      (backwardOperator (reference { config with headDimAlignment := 1 } blockSize probe)
        true).execute tensors attrs = .ok [dq, dk, dv] ∧
      (dq.type = x.q.type ∧ dk.type = x.k.type ∧ dv.type = x.v.type) ∧
      (dq.isContiguous = true ∧ dk.isContiguous = true ∧ dv.isContiguous = true) := by
  obtain ⟨bound, hbind, hlength, hattrs, htypes⟩ := Operator.exists_bound hinfer
  obtain ⟨x, rfl, -, l, outer, inner, hl, hlayout⟩ := exists_of_backwardCall hlength htypes
  have hscratch : ∀ t ∈ [x.q.type, x.k.type, x.v.type],
      paddedSize config.headDimAlignment t < bufferBound := fun t ht =>
    hpadded _ (List.mem_map_of_mem ht)
  obtain ⟨dq, dk, dv, hresults, hdense, hcompute⟩ :=
    exists_computeBackward_reference hattrs hl hlayout
  refine ⟨x, dq, dk, dv, rfl, fun scale causal => ?_,
    Operator.execute_eq_ok hbind (hcompute config blockSize probe _ hscratch),
    Operator.execute_eq_ok ((bind_backwardOperator ..).trans hbind)
      (hcompute _ blockSize probe _ fun t ht => ?_), hresults, hdense⟩
  rotate_left
  · exact Nat.lt_of_le_of_lt (paddedSize_one_le _ t) (hscratch t ht)
  obtain ⟨_, _, _, -, -, hkernel⟩ := exists_reference_backward hl hlayout scale causal
  obtain ⟨g, hg, hbackward, -⟩ := hkernel config blockSize probe hscratch
  obtain ⟨g', hg', hdq, hdk, hdv⟩ := exists_backward hlayout config.headDimAlignment scale causal
  obtain rfl := Except.ok.inj (hbackward.symm.trans hg')
  have hr := readable_ofInput hlayout
  have hdqZero := zeroPadded_paddedTensor hl.contiguous.query (hr.isGrid_queryRows _ _) hdq
  have hdkZero := zeroPadded_paddedTensor hl.contiguous.key (hr.isGrid_keyRows _ _) hdk
  have hdvZero := zeroPadded_paddedTensor hl.contiguous.value (hr.isGrid_valueRows _ _) hdv
  rw [Tensor.type_contiguous] at hdqZero hdkZero hdvZero
  exact ⟨g, hg, hdqZero, hdkZero, hdvZero⟩

open Builtin in
/-- Two heads whose queries are cut out of wider rows, with keys of width three and values of width
one: padding the gradients to rows of eight elements makes no difference. -/
theorem padding_invisible_scattered : scatteredQueries.isContiguous = false ∧
    ∃ dq dk dv : Tensor Float32, dq.type = hostType [1, 2, 2, 3] ∧
      dk.type = hostType [1, 2, 4, 3] ∧ dv.type = hostType [1, 2, 4, 1] ∧
      ∀ config ∈ [FlashConfig.standard, { FlashConfig.standard with headDimAlignment := 1 }],
        (backwardOperator (reference config 2 true) true).execute
          [some (.zeros (hostType [1, 2, 2, 1])), some scatteredQueries,
            some (.zeros (hostType [1, 2, 4, 3])), some (.zeros (hostType [1, 2, 4, 1])),
            some (.zeros (hostType [1, 2, 2, 1])), some (.zeros (hostType [1, 2, 2]))] .empty =
              .ok [dq, dk, dv] := by
  refine ⟨by decide, ?_⟩
  obtain ⟨x, dq, dk, dv, hx, -, hpadded, hplain, ⟨hdq, hdk, hdv⟩, -⟩ :=
    @padding_invisible Float32 _ _ .standard 2 true
      [some (.zeros (hostType [1, 2, 2, 1])), some scatteredQueries,
        some (.zeros (hostType [1, 2, 4, 3])), some (.zeros (hostType [1, 2, 4, 1])),
        some (.zeros (hostType [1, 2, 2, 1])), some (.zeros (hostType [1, 2, 2]))] .empty
      [hostType [1, 2, 2, 3], hostType [1, 2, 4, 3], hostType [1, 2, 4, 1]] rfl (by decide)
  obtain ⟨-, hq, hk, hv, -⟩ : _ ∧ scatteredQueries = x.q ∧ .zeros (hostType [1, 2, 4, 3]) = x.k ∧
      .zeros (hostType [1, 2, 4, 1]) = x.v ∧ _ := by simpa using hx
  exact ⟨dq, dk, dv, hdq.trans (hq ▸ rfl), hdk.trans (hk ▸ rfl), hdv.trans (hv ▸ rfl),
    List.forall_mem_cons.2 ⟨hpadded, List.forall_mem_cons.2 ⟨hplain, nofun⟩⟩⟩

end Flash

end TraceSubstitution
