import TraceSubstitution.Tensor.Tensor

/-!
# The dense form of a tensor

How the elements of a tensor lie in its buffer cannot be seen after `contiguous`:
its result is the dense tensor of the type and the elements, also where no element
is copied (`Tensor.contiguous_eq_dense`). So two tensors with the same `contents`
have the same dense form.
-/

namespace TraceSubstitution

theorem range_mul (d v : Nat) :
    List.range (d * v) = (List.range d).flatMap fun i => (List.range v).map (i * v + ·) := by
  induction d with
  | zero => simp
  | succ d ih =>
    rw [Nat.succ_mul, List.range_add, ih, List.range_succ, List.flatMap_append]
    simp

/-- The elements of a dense tensor lie one after the other. -/
theorem positions_of_isDense {dims strides : List Nat} (hdense : isDense dims strides = true)
    (hlength : dims.length = strides.length) (offset : Nat) :
    positions dims strides offset = (List.range (volume dims)).map (offset + ·) := by
  induction dims generalizing strides offset with
  | nil => simp
  | cons d dims ih =>
    cases strides with
    | nil => exact nomatch hlength
    | cons s strides =>
      simp only [isDense, Bool.and_eq_true, Bool.or_eq_true, beq_iff_eq] at hdense
      have ih := fun offset => ih hdense.2 (Nat.succ.inj hlength) offset
      rw [positions_cons, volume_cons, range_mul, List.map_flatMap]
      simp only [ih, List.map_map]
      rcases hdense.1 with rfl | rfl
      · -- along an axis of size one nothing is skipped, whatever the step
        simp [List.range_one]
      · congr 1
        funext i
        congr 1
        funext j
        exact Nat.add_assoc offset (i * volume dims) j

theorem positions_rowMajor (dims : List Nat) (offset : Nat) :
    positions dims (rowMajor dims) offset = (List.range (volume dims)).map (offset + ·) :=
  positions_of_isDense (isDense_rowMajor dims) (length_rowMajor dims).symm offset

theorem Fits.volume_le : ∀ {starts lens box : List Nat}, Fits starts lens box →
    volume lens ≤ volume box
  | [], [], [], _ => Nat.le_refl 1
  | s :: _, l :: _, b :: _, h => Nat.mul_le_mul (by have := h.1; omega) h.2.volume_le
  | [], _ :: _, _, h => h.elim
  | [], [], _ :: _, h => h.elim
  | _ :: _, [], _, h => h.elim
  | _ :: _, _ :: _, [], h => h.elim

/-- A window as large as its box has the steps of the box, if it is dense at all. -/
theorem Fits.rowMajor_eq : ∀ {starts dims box : List Nat}, Fits starts dims box →
    isDense dims (rowMajor box) = true → volume box = volume dims → rowMajor box = rowMajor dims
  | [], [], [], _, _, _ => rfl
  | s :: starts, d :: dims, b :: box, h, hdense, hvolume => by
    obtain ⟨hle, hfits⟩ := h
    simp only [rowMajor_cons, isDense, Bool.and_eq_true, Bool.or_eq_true, beq_iff_eq] at hdense
    simp only [volume_cons] at hvolume
    have htail : volume box = volume dims := by
      rcases hdense.1 with hd | heq
      · -- along an axis of size one any step passes for dense, so the volumes have to decide
        subst hd
        have hmono := hfits.volume_le
        rcases Nat.eq_zero_or_pos (volume box) with hzero | hpos
        · omega
        · have hb : b * volume box ≤ 1 * volume box := by omega
          have : b = 1 := by have := Nat.le_of_mul_le_mul_right hb hpos; omega
          subst this
          omega
      · exact heq
    rw [rowMajor_cons, rowMajor_cons, htail, hfits.rowMajor_eq hdense.2 htail]
  | [], _ :: _, _, h, _, _ => h.elim
  | [], [], _ :: _, h, _, _ => h.elim
  | _ :: _, [], _, h, _, _ => h.elim
  | _ :: _, _ :: _, [], h, _, _ => h.elim

/-- A dense window ends inside its box. -/
theorem Fits.shift_add_volume_le : ∀ {starts dims box : List Nat}, Fits starts dims box →
    isDense dims (rowMajor box) = true → shift starts (rowMajor box) + volume dims ≤ volume box
  | [], [], [], _, _ => by simp
  | s :: starts, d :: dims, b :: box, h, hdense => by
    obtain ⟨hle, hfits⟩ := h
    simp only [rowMajor_cons, isDense, Bool.and_eq_true, Bool.or_eq_true, beq_iff_eq] at hdense
    have ih := hfits.shift_add_volume_le hdense.2
    have hmul : (s + d) * volume box ≤ b * volume box := Nat.mul_le_mul_right _ hle
    rw [rowMajor_cons, shift_cons, volume_cons, volume_cons]
    rw [Nat.add_mul] at hmul
    rcases hdense.1 with rfl | heq
    · omega
    · -- the axes after this one fill their box, so no range of theirs starts later
      rw [heq] at ih hmul ⊢
      omega
  | [], _ :: _, _, h, _ => h.elim
  | [], [], _ :: _, h, _ => h.elim
  | _ :: _, [], _, h, _ => h.elim
  | _ :: _, _ :: _, [], h, _ => h.elim

namespace Tensor

variable {α : Type}

/-- All that an operator can see of a tensor: its type and its elements. -/
def contents (t : Tensor α) : TensorType × List α := (t.type, t.elements)

theorem contents_eq_iff {t u : Tensor α} :
    t.contents = u.contents ↔ t.type = u.type ∧ t.elements = u.elements := Prod.ext_iff

theorem type_eq_of_contents {t u : Tensor α} (h : t.contents = u.contents) : t.type = u.type :=
  congrArg Prod.fst h

/-- The elements are the values at their positions. -/
theorem gathered_map_some (t : Tensor α) :
    t.gathered.map some = (positions t.type.dims t.strides t.offset).map (t.storage[·]?) := by
  refine List.ext_getElem (by simp [gathered]) fun i _ _ => ?_
  simp [gathered]

/-- A tensor that fills its buffer in order has the buffer as its elements. -/
theorem elements_eq_storage {t : Tensor α}
    (h : positions t.type.dims t.strides t.offset = List.range t.storage.size) :
    t.elements = t.storage.toList := by
  rw [elements_eq_gathered]
  apply List.ext_getElem
  · simp [gathered, h]
  · intro i hi hi'
    simp [gathered, h]

@[simp] theorem elements_dense (type : TensorType) (xs : Array α)
    (h : xs.size = type.numElements) : (dense type xs h).elements = xs.toList := by
  refine elements_eq_storage ?_
  change positions type.dims (rowMajor type.dims) 0 = List.range xs.size
  rw [positions_rowMajor, h]
  simp [TensorType.numElements, Shape.numElements, TensorType.dims]

theorem eq_dense {t : Tensor α} {xs : Array α} {h : xs.size = t.type.numElements}
    (hstrides : t.strides = rowMajor t.type.dims) (hoffset : t.offset = 0)
    (hstorage : t.storage = xs) : t = dense t.type xs h := by
  obtain ⟨type, strides, offset, storage, window⟩ := t
  simp only at hstrides hoffset hstorage
  subst hstrides hoffset hstorage
  rfl

/-- The dense form of a tensor depends on its type and its elements only. -/
theorem contiguous_eq_dense (t : Tensor α) :
    t.contiguous = dense t.type t.elements.toArray (by simp [size]) := by
  unfold contiguous
  split
  · next h =>
    simp only [Bool.and_eq_true, beq_iff_eq] at h
    obtain ⟨⟨hdense, hoffset⟩, hsize⟩ := h
    have hstrides : t.strides = rowMajor t.type.dims := by
      obtain ⟨box, starts, hfits, hbox, -, hstorage⟩ := t.window
      rw [hbox]
      refine hfits.rowMajor_eq ?_ ?_
      · rw [← hbox]
        exact hdense
      · rw [← hstorage, hsize]
        rfl
    have helements : t.elements = t.storage.toList := by
      apply elements_eq_storage
      rw [hstrides, hoffset, positions_rowMajor, hsize]
      simp [size, TensorType.numElements, Shape.numElements, TensorType.dims]
    exact eq_dense hstrides hoffset (by rw [helements])
  · rfl

theorem contiguous_congr {t u : Tensor α} (h : t.contents = u.contents) :
    t.contiguous = u.contiguous := by
  obtain ⟨htype, helements⟩ := contents_eq_iff.1 h
  rw [contiguous_eq_dense, contiguous_eq_dense]
  simp only [htype, helements]

end Tensor

end TraceSubstitution
