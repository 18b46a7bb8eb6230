import TraceSubstitution.Proofs.Tensor.Odometer

/-!
# Views are slices

A view is obtained from a tensor by taking ranges of axes, one after the other, and by
copying the elements into a buffer of their own in between (`Tensor.IsView`). Its
element at an index is the one that the tensor has at the index shifted, along every
axis, by the sum of the starts of the ranges (`Tensor.IsView.getElem?_elements`).

The elements are read in one of two ways: in one piece where they lie in one, and
otherwise on a walk through the indices (`Tensor.read`). Both ways stay inside the
buffer and give the same elements, also where the view is empty or starts at the very
end of its buffer.
-/

namespace TraceSubstitution

/-- It makes no difference whether an index or the start that is added to it is moved on. -/
theorem zipWith_add_modify (start : Nat) : ∀ (index starts : List Nat) (axis : Nat),
    List.zipWith (· + ·) (index.modify axis (· + start)) starts =
      List.zipWith (· + ·) index (starts.modify axis (· + start))
  | [], _, _ => by simp
  | _ :: _, [], _ => by simp
  | i :: index, s :: starts, 0 => by simp [Nat.add_assoc, Nat.add_comm start s]
  | i :: index, s :: starts, axis + 1 => by simp [zipWith_add_modify start index starts axis]

/-- An index of a range is an index of the axis when the start is added. -/
theorem Inside.modify {start len : Nat} : ∀ {index dims : List Nat} (axis : Nat),
    Inside index (dims.set axis len) → start + len ≤ dims.getD axis 0 →
      Inside (index.modify axis (· + start)) dims
  | [], [], _, _, _ => by simp
  | i :: index, d :: dims, 0, .cons hi hrest, hrange => by
    have hrange : start + len ≤ d := by simpa using hrange
    exact .cons (show i + start < d by omega) hrest
  | i :: index, d :: dims, axis + 1, .cons hi hrest, hrange =>
    .cons hi (Inside.modify axis hrest (by simpa using hrange))
  | _ :: _, [], _, h, _ => nomatch h
  | [], _ :: _, 0, h, _ => nomatch h
  | [], _ :: _, _ + 1, h, _ => nomatch h

namespace Tensor

variable {α : Type} {t u base : Tensor α} {axis start len : Nat} {starts index : List Nat}

/-- A range of an axis is a window into the same buffer. -/
theorem exists_narrow (haxis : axis < t.type.rank)
    (hrange : start + len ≤ t.type.dims.getD axis 0) :
    ∃ u, t.narrow axis start len = .ok u ∧ u.type = t.type.withShape ⟨t.type.dims.set axis len⟩ ∧
      u.strides = t.strides ∧ u.offset = t.offset + start * t.strides.getD axis 0 ∧
      u.storage = t.storage :=
  ⟨_, (if_pos haxis).trans (dif_pos hrange), rfl, rfl, rfl, rfl⟩

/-- A range is taken if the axis exists and the range ends inside it, and is refused otherwise. -/
theorem narrow_cases (t : Tensor α) (axis start len : Nat) :
    (axis < t.type.rank ∧ start + len ≤ t.type.dims.getD axis 0 ∧
      ∃ u, t.narrow axis start len = .ok u ∧
        u.type = t.type.withShape ⟨t.type.dims.set axis len⟩) ∨
    ¬(axis < t.type.rank ∧ start + len ≤ t.type.dims.getD axis 0) ∧
      ∃ e, t.narrow axis start len = .error (.error e) := by
  unfold narrow
  split
  · next haxis =>
    split
    · next hrange => exact .inl ⟨haxis, hrange, _, rfl, rfl⟩
    · next hrange => exact .inr ⟨fun h => hrange h.2, _, rfl⟩
  · next haxis => exact .inr ⟨fun h => haxis h.1, _, rfl⟩

/-- The element at an index lies in the buffer, at the steps of the index from the first one. -/
theorem getElem?_elements (h : Inside index t.type.dims) :
    t.offset + shift index t.strides < t.storage.size ∧
      t.elements[ordinal t.type.dims index]? = t.storage[t.offset + shift index t.strides]? := by
  have hposition := getElem?_positions h t.length_strides.symm t.offset
  have hentry := congrArg (·[ordinal t.type.dims index]?) t.gathered_map_some
  simp only [List.getElem?_map, hposition, Option.map_some] at hentry
  refine ⟨lt_of_mem_positions t.window (List.mem_of_getElem? hposition), ?_⟩
  obtain ⟨x, hx, heq⟩ := Option.map_eq_some_iff.1 hentry
  rw [elements_eq_gathered, hx, heq]

/-- The element of a range at an index is that of the tensor at the shifted index. -/
theorem getElem?_elements_narrow (h : t.narrow axis start len = .ok u)
    (hindex : Inside index u.type.dims) :
    Inside (index.modify axis (· + start)) t.type.dims ∧
      u.elements[ordinal u.type.dims index]? =
        t.elements[ordinal t.type.dims (index.modify axis (· + start))]? := by
  rcases t.narrow_cases axis start len with ⟨haxis, hrange, -⟩ | ⟨-, e, herror⟩
  · obtain ⟨u', hu', htype, hstrides, hoffset, hstorage⟩ := exists_narrow haxis hrange
    obtain rfl : u' = u := Except.ok.inj (hu'.symm.trans h)
    have hinside : Inside (index.modify axis (· + start)) t.type.dims := by
      refine Inside.modify axis ?_ hrange
      rwa [htype] at hindex
    have hlength : index.length = t.strides.length := by
      rw [hindex.length_eq, ← u'.length_strides, hstrides]
    refine ⟨hinside, ?_⟩
    rw [(getElem?_elements hindex).2, (getElem?_elements hinside).2, hstorage, hstrides, hoffset,
      shift_modify start index t.strides axis hlength]
    congr 1
    omega
  · exact nomatch herror.symm.trans h

/-- Ranges of the axes of a tensor that start at `starts`, taken one after the other and copied or
not. -/
inductive IsView (base : Tensor α) : (starts : List Nat) → Tensor α → Prop where
  | whole : IsView base (List.replicate base.type.rank 0) base
  | narrow {starts : List Nat} {t u : Tensor α} {axis start len : Nat} : IsView base starts t →
    t.narrow axis start len = .ok u → IsView base (starts.modify axis (· + start)) u
  | contiguous {starts : List Nat} {t : Tensor α} : IsView base starts t →
    IsView base starts t.contiguous

/-- The element of a view at an index is that of the tensor at the index shifted by the starts. -/
theorem IsView.getElem?_elements (h : base.IsView starts t) (hindex : Inside index t.type.dims) :
    Inside (List.zipWith (· + ·) index starts) base.type.dims ∧
      t.elements[ordinal t.type.dims index]? =
        base.elements[ordinal base.type.dims (List.zipWith (· + ·) index starts)]? := by
  induction h generalizing index with
  | whole =>
    have hzero : List.zipWith (· + ·) index (List.replicate base.type.rank 0) = index := by
      have hlength : index.length = base.type.rank := hindex.length_eq
      rw [← hlength]
      refine List.ext_getElem (by simp) fun i _ _ => by simp
    rw [hzero]
    exact ⟨hindex, rfl⟩
  | narrow _ hnarrow ih =>
    obtain ⟨hinside, hentry⟩ := getElem?_elements_narrow hnarrow hindex
    obtain ⟨hbase, hentry'⟩ := ih hinside
    rw [zipWith_add_modify] at hbase hentry'
    exact ⟨hbase, hentry.trans hentry'⟩
  | contiguous _ ih =>
    rw [type_contiguous] at hindex ⊢
    rw [elements_contiguous]
    exact ih hindex

/-- Reads the elements: in one piece where they lie in one, and on a walk otherwise. -/
def read (t : Tensor α) : Except Failure (List α) :=
  if t.isContiguous then t.block.map Array.toList
  else readWalk t.storage t.type.dims t.strides t.offset

/-- A walk through the indices meets the elements. -/
theorem readWalk_eq_ok (t : Tensor α) :
    readWalk t.storage t.type.dims t.strides t.offset = .ok t.elements := by
  rw [readWalk_eq _ t.length_strides.symm, elements_eq_gathered]
  exact (mapM_eq_ok_iff fun _ _ => orPanic_eq_ok_iff).2 t.gathered_map_some.symm

@[simp] theorem read_eq_ok (t : Tensor α) : t.read = .ok t.elements := by
  unfold read
  split
  · next h =>
    rw [block_eq_ok h]
    rfl
  · exact t.readWalk_eq_ok

/-- Reading the elements in one piece fails only where they are scattered. -/
theorem block_eq_error_iff {e : Failure} :
    t.block = .error e ↔ t.isContiguous = false ∧ e = .panic .scattered := by
  cases h : t.isContiguous with
  | true => simp [block_eq_ok h]
  | false => simp [block, h, eq_comm]

/-- A view denotes a slice of the tensor that it is taken of, however it was made. A further range
of it is taken exactly if the axis exists and the range ends inside it, and then only the size of
this axis changes. Both ways of reading give its elements: as many as its type says, each of them in
the buffer and equal to the element of the tensor at the index that is shifted by the starts.
Nothing is ever read outside the buffer, and reading in one piece fails on scattered elements
only. -/
theorem view_denotes_slice (h : base.IsView starts t) :
    (t.strides.length = t.type.rank ∧ ∀ axis start len,
      ((∃ u, t.narrow axis start len = .ok u) ↔
        axis < t.type.rank ∧ start + len ≤ t.type.dims.getD axis 0) ∧
      (∀ u, t.narrow axis start len = .ok u →
        u.type = t.type.withShape ⟨t.type.dims.set axis len⟩) ∧
      ∀ p, t.narrow axis start len ≠ .error (.panic p)) ∧
    (t.read = .ok t.elements ∧ t.elements.length = t.type.numElements ∧
      ∀ index, Inside index t.type.dims →
        t.offset + shift index t.strides < t.storage.size ∧
        Inside (List.zipWith (· + ·) index starts) base.type.dims ∧
        ∃ x, t.elements[ordinal t.type.dims index]? = some x ∧
          base.elements[ordinal base.type.dims (List.zipWith (· + ·) index starts)]? = some x) ∧
    (t.isContiguous = true → t.offset + t.size ≤ t.storage.size ∧
      t.block = .ok t.elements.toArray ∧
      readWalk t.storage t.type.dims t.strides t.offset = .ok t.elements) ∧
    (∀ e, t.block = .error e → t.isContiguous = false ∧ ∃ p, e = .panic p ∧
      p.message = some "tensor data is not contiguous; call contiguous() first") ∧
    t.contiguous.type = t.type ∧ t.contiguous.block = .ok t.elements.toArray := by
  refine ⟨⟨t.length_strides, fun axis start len => ?_⟩, ⟨t.read_eq_ok, t.length_elements, ?_⟩,
    fun hdense => ⟨offset_add_size_le hdense, block_eq_ok hdense, t.readWalk_eq_ok⟩, ?_,
    t.type_contiguous, t.block_contiguous⟩
  · rcases t.narrow_cases axis start len with ⟨haxis, hrange, u, hu, htype⟩ | ⟨hrefused, e, herror⟩
    · refine ⟨⟨fun _ => ⟨haxis, hrange⟩, fun _ => ⟨u, hu⟩⟩, fun u' hu' => ?_, fun p => by simp [hu]⟩
      rwa [← Except.ok.inj (hu.symm.trans hu')]
    · exact ⟨⟨fun ⟨u, hu⟩ => (nomatch herror.symm.trans hu), fun h => absurd h hrefused⟩,
        fun u hu => (nomatch herror.symm.trans hu), fun p => by simp [herror]⟩
  · intro index hindex
    obtain ⟨hbase, hentry⟩ := h.getElem?_elements hindex
    have hlt : ordinal t.type.dims index < t.elements.length := by
      rw [length_elements]
      exact ordinal_lt hindex
    have hsome := List.getElem?_eq_getElem hlt
    exact ⟨(getElem?_elements hindex).1, hbase, _, hsome, hentry ▸ hsome⟩
  · intro e he
    obtain ⟨hscattered, rfl⟩ := block_eq_error_iff.1 he
    exact ⟨hscattered, _, rfl, rfl⟩

/-- Three rows with the numbers from zero on. -/
def numberedRows : Tensor Nat :=
  dense ⟨⟨[3, 4]⟩, .i32, .host⟩ #[0, 1, 2, 3, 4, 5, 6, 7, 8, 9, 10, 11] rfl

/-- The middle of the last two rows, copied in between, and the rows after the last one: the first
view is scattered, the second one lies at the end of the buffer and is read in one piece. -/
theorem view_denotes_slice_corner : ∃ rows middle none : Tensor Nat,
    numberedRows.narrow 0 1 2 = .ok rows ∧ rows.contiguous.narrow 1 1 2 = .ok middle ∧
    numberedRows.narrow 0 3 0 = .ok none ∧
    (middle.isContiguous = false ∧ middle.read = .ok [5, 6, 9, 10]) ∧
    (∃ x, middle.elements[ordinal [2, 2] [1, 0]]? = some x ∧
      numberedRows.elements[ordinal [3, 4] [2, 1]]? = some x) ∧
    none.offset = none.storage.size ∧ none.block = .ok #[] := by
  have hmiddle {rows middle : Tensor Nat} (hrows : numberedRows.narrow 0 1 2 = .ok rows)
      (hmiddle : rows.contiguous.narrow 1 1 2 = .ok middle) :=
    view_denotes_slice (.narrow (.contiguous (.narrow .whole hrows)) hmiddle)
  have hnone {none : Tensor Nat} (hnone : numberedRows.narrow 0 3 0 = .ok none) :=
    view_denotes_slice (.narrow .whole hnone)
  refine ⟨_, _, _, rfl, rfl, rfl, ⟨by decide, (hmiddle rfl rfl).2.1.1⟩, ?_, by decide,
    ((hnone rfl).2.2.1 (by decide)).2.1⟩
  exact ((hmiddle rfl rfl).2.1.2.2 [1, 0] (by decide)).2.2

end Tensor

end TraceSubstitution
