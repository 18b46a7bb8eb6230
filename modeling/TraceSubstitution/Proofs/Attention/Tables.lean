import TraceSubstitution.Proofs.Tensor.Blocks

/-!
# Tables of rows

Results are computed row by row, for every query or key of every head or batch entry.
`table` lists them in the order in which they lie in a buffer, and `rowOf_table` finds
a row again among the elements.
-/

namespace TraceSubstitution

namespace Attention

variable {β γ : Type}

theorem zipIdx_map_range (n : Nat) (f : Nat → β) :
    ((List.range n).map f).zipIdx = (List.range n).map fun i => (f i, i) := by
  refine List.ext_getElem (by simp) fun i _ _ => ?_
  simp

/-- Row `i` of a list that is read as rows of one width. -/
def rowOf (xs : List β) (width i : Nat) : List β := (xs.drop (i * width)).take width

/-- The entries for all positions of all blocks, block by block. -/
def table (blocks n : Nat) (f : Nat → Nat → β) : List β :=
  (List.range blocks).flatMap fun b => (List.range n).map (f b)

theorem table_congr {blocks n : Nat} {f g : Nat → Nat → β}
    (h : ∀ b < blocks, ∀ i < n, f b i = g b i) : table blocks n f = table blocks n g := by
  unfold table
  rw [List.flatMap_def, List.flatMap_def]
  refine congrArg List.flatten (List.map_congr_left fun b hb => List.map_congr_left fun i hi => ?_)
  exact h b (List.mem_range.1 hb) i (List.mem_range.1 hi)

theorem map_table (blocks n : Nat) (f : Nat → Nat → β) (g : β → γ) :
    (table blocks n f).map g = table blocks n fun b i => g (f b i) := by
  unfold table
  rw [List.map_flatMap]
  simp only [List.map_map, Function.comp_def]

@[simp] theorem length_table (blocks n : Nat) (f : Nat → Nat → β) :
    (table blocks n f).length = blocks * n := by
  simp [table, List.length_flatMap, List.map_const']

theorem getElem?_table {blocks n : Nat} (f : Nat → Nat → β) {b i : Nat} (hb : b < blocks)
    (hi : i < n) : (table blocks n f)[b * n + i]? = some (f b i) :=
  getElem?_flatMap_range f hb hi

theorem isGrid_table {blocks n width : Nat} {f : Nat → Nat → List β}
    (h : ∀ b < blocks, ∀ i < n, (f b i).length = width) :
    IsGrid (blocks * n) width (table blocks n f) := by
  refine ⟨length_table blocks n f, fun row hrow => ?_⟩
  obtain ⟨b, hb, hrow⟩ := List.mem_flatMap.1 hrow
  obtain ⟨i, hi, rfl⟩ := List.mem_map.1 hrow
  exact h b (List.mem_range.1 hb) i (List.mem_range.1 hi)

theorem rowOf_map (xs : List β) (f : β → γ) (width i : Nat) :
    rowOf (xs.map f) width i = (rowOf xs width i).map f := by
  simp [rowOf, List.map_drop, List.map_take]

/-- A row of rows that follow one another. -/
theorem rowOf_flatten {rows width : Nat} {grid : List (List β)} (h : IsGrid rows width grid)
    {i : Nat} {row : List β} (hrow : grid[i]? = some row) : rowOf grid.flatten width i = row := by
  induction grid generalizing rows i with
  | nil => exact nomatch hrow
  | cons first grid ih =>
    have hfirst : first.length = width := h.width first List.mem_cons_self
    unfold rowOf at ih ⊢
    cases i with
    | zero =>
      obtain rfl := Option.some.inj hrow
      rw [Nat.zero_mul, List.drop_zero, List.flatten_cons, List.take_left' hfirst]
    | succ i =>
      rw [Nat.succ_mul, Nat.add_comm, List.flatten_cons, ← List.drop_drop, List.drop_left' hfirst]
      exact ih ⟨rfl, fun row hrow => h.width row (List.mem_cons_of_mem _ hrow)⟩ hrow

/-- A row of width one. -/
theorem rowOf_one {xs : List β} {i : Nat} {x : β} (h : xs[i]? = some x) :
    rowOf xs 1 i = [x] := by
  obtain ⟨hi, rfl⟩ := List.getElem?_eq_some_iff.1 h
  unfold rowOf
  rw [Nat.mul_one, List.drop_eq_getElem_cons hi]
  rfl

/-- The rows of a tensor hold its elements. -/
theorem values_asRows (t : Tensor β) (width i : Nat) :
    (t.asRows width).values i = rowOf t.elements width i := by
  simp [Rows.values, Tensor.asRows, rowOf, List.extract_eq_take_drop]

theorem getElem?_rowOf (xs : List β) {width c : Nat} (hc : c < width) (i : Nat) :
    (rowOf xs width i)[c]? = xs[i * width + c]? := by
  simp [rowOf, hc]

/-- An element of rows that follow one another is an element of a row, in the same column. -/
theorem exists_of_getElem?_flatten {rows width : Nat} {grid : List (List β)}
    (h : IsGrid rows width grid) {i c : Nat} (hc : c < width) {x : β}
    (hx : grid.flatten[i * width + c]? = some x) : ∃ row ∈ grid, row[c]? = some x := by
  have hi : i < grid.length := by
    obtain ⟨hlt, -⟩ := List.getElem?_eq_some_iff.1 hx
    rw [h.length_flatten, ← h.length] at hlt
    refine Nat.lt_of_not_le fun hge => ?_
    have := Nat.mul_le_mul_right width hge
    omega
  refine ⟨grid[i], List.getElem_mem hi, ?_⟩
  rw [← rowOf_flatten h (List.getElem?_eq_getElem hi), getElem?_rowOf _ hc, hx]

/-- A row of a table, among the elements of all rows. -/
theorem rowOf_table {blocks n width : Nat} {f : Nat → Nat → List β}
    (h : ∀ b < blocks, ∀ i < n, (f b i).length = width) {b i : Nat} (hb : b < blocks) (hi : i < n) :
    rowOf (table blocks n f).flatten width (b * n + i) = f b i :=
  rowOf_flatten (isGrid_table h) (getElem?_table f hb hi)

end Attention

end TraceSubstitution
