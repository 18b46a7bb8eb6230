import TraceSubstitution.Proofs.Outcome
import TraceSubstitution.Proofs.Tensor.Layout
import TraceSubstitution.Tensor.Rows

/-!
# Blocks of rows

The elements of a tensor that is dense, and of any tensor after `contiguous`, are
one piece of its buffer, so they can be read as rows of any width, and the rows that
fit into the tensor can be read. Results are computed as lists of rows, grouped by
batch entry. `IsGrid` and `IsStack` say how many rows there are and how wide they are,
so a tensor can be made of them when its type has as many elements.
-/

namespace TraceSubstitution

/-- The position of entry `i` of row `b` of a table with rows of `n` entries. -/
theorem index_lt {b rows i n : Nat} (hb : b < rows) (hi : i < n) : b * n + i < rows * n := by
  have : (b + 1) * n ≤ rows * n := Nat.mul_le_mul_right n hb
  rw [Nat.succ_mul] at this
  omega

/-- Entry `i` of block `b` of a list of blocks of one length. -/
theorem getElem?_flatMap_of_length {β : Type} {f : Nat → List β} {blocks n b i : Nat}
    (hf : ∀ b, (f b).length = n) (hb : b < blocks) (hi : i < n) :
    ((List.range blocks).flatMap f)[b * n + i]? = (f b)[i]? := by
  have hlength : ∀ blocks, ((List.range blocks).flatMap f).length = blocks * n := fun blocks => by
    rw [List.length_flatMap]
    simp only [hf, List.map_const', List.length_range, List.sum_replicate_nat]
  induction blocks with
  | zero => exact absurd hb (Nat.not_lt_zero b)
  | succ blocks ih =>
    rw [List.range_succ, List.flatMap_append, List.flatMap_singleton]
    rcases Nat.lt_succ_iff_lt_or_eq.1 hb with hlt | rfl
    · rw [List.getElem?_append_left (hlength blocks ▸ index_lt hlt hi), ih hlt]
    · rw [List.getElem?_append_right (hlength b ▸ Nat.le_add_right _ i), hlength,
        Nat.add_sub_cancel_left]

/-- Entry `i` of row `b` of a table that is computed row by row. -/
theorem getElem?_flatMap_range {β : Type} (f : Nat → Nat → β) {blocks n b i : Nat}
    (hb : b < blocks) (hi : i < n) :
    ((List.range blocks).flatMap fun b => (List.range n).map (f b))[b * n + i]? = some (f b i) := by
  rw [getElem?_flatMap_of_length (fun b => by simp) hb hi, List.getElem?_map,
    List.getElem?_range hi, Option.map_some]

@[simp] theorem volume_append (dims dims' : List Nat) :
    volume (dims ++ dims') = volume dims * volume dims' := by
  induction dims with
  | nil => simp
  | cons d dims ih => simp [ih, Nat.mul_assoc]

/-- A list of `rows` rows of `width` entries. -/
structure IsGrid {β : Type} (rows width : Nat) (xs : List (List β)) : Prop where
  length : xs.length = rows
  width : ∀ x ∈ xs, x.length = width

/-- A list of `batch` grids. -/
structure IsStack {β : Type} (batch rows width : Nat) (xs : List (List (List β))) : Prop where
  length : xs.length = batch
  grid : ∀ x ∈ xs, IsGrid rows width x

theorem exists_of_mem_zipWith {β γ δ : Type} {f : β → γ → δ} {xs : List β} {ys : List γ} {z : δ}
    (h : z ∈ List.zipWith f xs ys) : ∃ x ∈ xs, ∃ y ∈ ys, f x y = z := by
  rw [← List.map_uncurry_zip_eq_zipWith] at h
  obtain ⟨⟨x, y⟩, hxy, rfl⟩ := List.mem_map.1 h
  obtain ⟨hx, hy⟩ := List.of_mem_zip hxy
  exact ⟨x, hx, y, hy, rfl⟩

section

variable {β : Type} {batch rows width : Nat}

theorem IsGrid.zipWith {f : β → β → β} {xs ys : List (List β)} (hx : IsGrid rows width xs)
    (hy : IsGrid rows width ys) : IsGrid rows width (List.zipWith (List.zipWith f) xs ys) where
  length := by rw [List.length_zipWith, hx.length, hy.length, Nat.min_self]
  width := by
    intro z hz
    obtain ⟨x, hxs, y, hys, rfl⟩ := exists_of_mem_zipWith hz
    rw [List.length_zipWith, hx.width x hxs, hy.width y hys, Nat.min_self]

theorem IsStack.zipWith {f : β → β → β} {xs ys : List (List (List β))}
    (hx : IsStack batch rows width xs) (hy : IsStack batch rows width ys) :
    IsStack batch rows width (List.zipWith (List.zipWith (List.zipWith f)) xs ys) where
  length := by rw [List.length_zipWith, hx.length, hy.length, Nat.min_self]
  grid := by
    intro z hz
    obtain ⟨x, hxs, y, hys, rfl⟩ := exists_of_mem_zipWith hz
    exact (hx.grid x hxs).zipWith (hy.grid y hys)

theorem IsGrid.length_flatten {xs : List (List β)} (h : IsGrid rows width xs) :
    xs.flatten.length = rows * width := by
  rw [List.length_flatten, List.map_congr_left h.width, List.map_const', List.sum_replicate_nat,
    h.length]

theorem IsStack.flatten {xs : List (List (List β))} (h : IsStack batch rows width xs) :
    IsGrid (batch * rows) width xs.flatten where
  length := by
    have hlength : IsGrid batch rows xs := ⟨h.length, fun x hx => (h.grid x hx).length⟩
    exact hlength.length_flatten
  width := by
    intro x hx
    obtain ⟨entry, hentry, hx⟩ := List.mem_flatten.1 hx
    exact (h.grid entry hentry).width x hx

theorem IsStack.length_flatten {xs : List (List (List β))} (h : IsStack batch rows width xs) :
    xs.flatten.flatten.length = batch * rows * width := h.flatten.length_flatten

theorem returns_grid {f : Nat → Except Failure (List β)}
    (h : ∀ i < rows, Returns (f i) (·.length = width)) :
    Returns ((List.range rows).mapM f) (IsGrid rows width) := by
  refine (Ends.mapM fun i hi => h i (List.mem_range.1 hi)).mono fun ys _ hys => ?_
  exact ⟨hys.1.trans List.length_range, hys.2⟩

theorem returns_stack {f : Nat → Except Failure (List (List β))}
    (h : ∀ b < batch, Returns (f b) (IsGrid rows width)) :
    Returns ((List.range batch).mapM f) (IsStack batch rows width) := by
  refine (Ends.mapM fun b hb => h b (List.mem_range.1 hb)).mono fun ys _ hys => ?_
  exact ⟨hys.1.trans List.length_range, hys.2⟩

/-- Sums of rows of one width, some of which are left out, have this width. -/
theorem length_gather {γ : Type} {f : List β → γ → List β} {xs : List γ} {acc : List β}
    (hacc : acc.length = width)
    (hf : ∀ acc, acc.length = width → ∀ x ∈ xs, (f acc x).length = width) :
    (xs.foldl f acc).length = width :=
  List.foldlRecOn (motive := fun acc => acc.length = width) xs f hacc hf

end

namespace Rows

variable {α : Type} {m : Rows α} {count i : Nat}

/-- The first `count` rows lie in the buffer. -/
def Holds (m : Rows α) (count : Nat) : Prop := count * m.width ≤ m.data.size

theorem reach_of_holds (h : m.Holds count) : m.reach count = .ok () := reach_eq_ok_iff.2 h

theorem Holds.mono {count' : Nat} (h : m.Holds count) (hle : count' ≤ count) : m.Holds count' :=
  Nat.le_trans (Nat.mul_le_mul_right _ hle) h

theorem Holds.row_le (h : m.Holds count) (hi : i < count) :
    i * m.width + m.width ≤ m.data.size := by
  rw [← Nat.succ_mul]
  exact h.mono hi

theorem Holds.row_eq_ok (h : m.Holds count) (hi : i < count) : m.row i = .ok (m.values i) :=
  Rows.row_eq_ok (h.row_le hi)

theorem Holds.length_values (h : m.Holds count) (hi : i < count) : (m.values i).length = m.width :=
  Rows.length_values (h.row_le hi)

theorem Holds.returns_row (h : m.Holds count) (hi : i < count) :
    Returns (m.row i) (·.length = m.width) :=
  returns_of_eq_ok (h.row_eq_ok hi) (h.length_values hi)

end Rows

namespace Tensor

variable {α : Type} (t : Tensor α)

@[simp] theorem isContiguous_contiguous : t.contiguous.isContiguous = true := by
  rw [contiguous_eq_dense]
  exact isDense_rowMajor _

@[simp] theorem elements_contiguous : t.contiguous.elements = t.elements := by
  rw [contiguous_eq_dense, elements_dense, List.toList_toArray]

variable {t} in
/-- A tensor that lies in one piece ends inside its buffer. -/
theorem offset_add_size_le (h : t.isContiguous = true) : t.offset + t.size ≤ t.storage.size := by
  obtain ⟨box, starts, hfits, hstrides, hoffset, hsize⟩ := t.window
  rw [hoffset, hsize, hstrides]
  exact hfits.shift_add_volume_le (hstrides ▸ h)

variable {t} in
/-- The elements of a tensor that lies in one piece are this piece. -/
theorem block_eq_ok (h : t.isContiguous = true) : t.block = .ok t.elements.toArray := by
  have hpositions : positions t.type.dims t.strides t.offset =
      (List.range t.size).map (t.offset + ·) :=
    positions_of_isDense h t.length_strides.symm t.offset
  have hbound := offset_add_size_le h
  have hgathered : t.gathered = (t.storage.extract t.offset (t.offset + t.size)).toList := by
    apply List.ext_getElem
    · rw [length_gathered, Array.length_toList, Array.size_extract]
      omega
    · intro i _ _
      simp [gathered, hpositions]
  unfold block
  rw [if_pos h, slice_eq_ok hbound, elements_eq_gathered, hgathered, Array.toArray_toList]

theorem block_contiguous : t.contiguous.block = .ok t.elements.toArray := by
  rw [block_eq_ok t.isContiguous_contiguous, contiguous_eq_dense, elements_dense,
    Array.toArray_toList]

/-- The elements of a tensor as rows of one width. -/
def asRows (width : Nat) : Rows α := ⟨t.elements.toArray, width⟩

@[simp] theorem width_asRows (width : Nat) : (t.asRows width).width = width := rfl

variable {t} in
theorem rows_eq_ok (h : t.isContiguous = true) (width : Nat) :
    t.rows width = .ok (t.asRows width) := by
  unfold rows
  rw [block_eq_ok h]
  rfl

theorem rows_contiguous (width : Nat) : t.contiguous.rows width = .ok (t.asRows width) := by
  unfold rows
  rw [block_contiguous]
  rfl

variable {t} in
theorem holds_asRows {width count : Nat} (h : count * width = t.type.numElements) :
    (t.asRows width).Holds count := by
  unfold Rows.Holds
  rw [width_asRows, h]
  simp [asRows, size]

variable [Scalar α]

/-- A tensor is made of as many elements as its type has. -/
theorem exists_ofElements {type : TensorType} {xs : Array α} (h : xs.size = type.numElements) :
    ∃ t, ofElements type xs = .ok t ∧ t.type = type ∧
      t.elements = (xs.map (Scalar.narrow type.dtype)).toList :=
  ⟨_, dif_pos h, rfl, elements_dense ..⟩

/-- A tensor that is made of elements has these elements, narrowed, and lies in one piece. -/
theorem of_ofElements_eq_ok {type : TensorType} {xs : Array α} {t : Tensor α}
    (h : ofElements type xs = .ok t) : t.type = type ∧
      t.elements = (xs.map (Scalar.narrow type.dtype)).toList ∧ t.isContiguous = true := by
  unfold ofElements at h
  split at h
  · obtain rfl := Except.ok.inj h
    exact ⟨rfl, elements_dense .., isDense_rowMajor _⟩
  · cases h

theorem returns_ofElements {type : TensorType} {xs : Array α} (h : xs.size = type.numElements) :
    Returns (ofElements type xs) (·.type = type) := by
  unfold ofElements
  rw [dif_pos h]
  exact rfl

theorem returns_ofStack {type : TensorType} {batch rows width : Nat} {xs : List (List (List α))}
    (hxs : IsStack batch rows width xs) (hsize : batch * rows * width = type.numElements) :
    Returns (ofElements type xs.flatten.flatten.toArray) (·.type = type) := by
  refine returns_ofElements ?_
  rw [List.size_toArray, hxs.length_flatten, hsize]

/-- A tensor is made of the rows of a grid. -/
theorem exists_ofGrid {type : TensorType} {rows width : Nat} {grid : List (List α)}
    (hgrid : IsGrid rows width grid) (hsize : rows * width = type.numElements) :
    ∃ t, ofElements type grid.flatten.toArray = .ok t ∧ t.type = type ∧
      t.elements = (grid.flatten.toArray.map (Scalar.narrow type.dtype)).toList :=
  exists_ofElements (by rw [List.size_toArray, hgrid.length_flatten, hsize])

theorem returns_filled {type : TensorType} {count : Nat} {x : α} (h : count = type.numElements) :
    Returns (filled type count x) (·.type = type) := by
  unfold filled
  rw [if_pos h]
  exact rfl

end Tensor

end TraceSubstitution
