import TraceSubstitution.Proofs.Attention.Sizes
import TraceSubstitution.Proofs.Tensor.Views

/-!
# Leading columns

Taking a range of the last axis of a dense tensor keeps the leading elements of every
row (`Tensor.exists_narrow_last`): the rows of the window start where those of the
tensor do, and end earlier. So what was added at the ends of the rows is gone.
-/

namespace TraceSubstitution

/-- The positions of a window that keeps `width` columns of rows that are `padded` long. -/
theorem positions_columns (dims : List Nat) (padded width offset : Nat) :
    positions (dims ++ [width]) (rowMajor (dims ++ [padded])) offset =
      (List.range (volume dims)).flatMap fun r =>
        (List.range width).map fun c => offset + r * padded + c := by
  induction dims generalizing offset with
  | nil =>
    have hrow : positions [width] [1] offset = (List.range width).map fun c => offset + c := by
      rw [positions_cons, List.map_eq_flatMap]
      simp
    simpa using hrow
  | cons d dims ih =>
    have hrows : ∀ i, positions (dims ++ [width]) (rowMajor (dims ++ [padded]))
        (offset + i * volume (dims ++ [padded])) = ((List.range (volume dims)).map
          (i * volume dims + ·)).flatMap fun r =>
            (List.range width).map fun c => offset + r * padded + c := by
      intro i
      rw [ih, List.flatMap_map]
      simp [Nat.add_mul, Nat.mul_assoc, Nat.add_assoc]
    rw [List.cons_append, List.cons_append, rowMajor_cons, positions_cons, volume_cons, range_mul,
      List.flatMap_assoc]
    exact congrArg (List.flatMap · _) (funext hrows)

/-- The leading columns of rows that follow one another. -/
theorem IsGrid.flatMap_take {β : Type} {rows padded width : Nat} {xs : List (List β)}
    (h : IsGrid rows padded xs) (hwidth : width ≤ padded) :
    ((List.range rows).flatMap fun r =>
      (List.range width).map fun c => xs.flatten[r * padded + c]?) =
        (xs.map (·.take width)).flatten.map some := by
  induction xs generalizing rows with
  | nil =>
    obtain rfl : 0 = rows := h.length
    rfl
  | cons x xs ih =>
    obtain rfl : xs.length + 1 = rows := h.length
    have hx : x.length = padded := h.width x List.mem_cons_self
    have hrest := ih ⟨rfl, fun y hy => h.width y (List.mem_cons_of_mem _ hy)⟩
    have hfirst : ((List.range width).map fun c => (x :: xs).flatten[0 * padded + c]?) =
        (x.take width).map some := by
      refine List.ext_getElem (by simp [hx, hwidth]) fun c hc _ => ?_
      have hc : c < x.length := by
        rw [List.length_map, List.length_range] at hc
        omega
      simp [List.getElem?_append_left hc]
    have hnext : ∀ r c, (x :: xs).flatten[(r + 1) * padded + c]? =
        xs.flatten[r * padded + c]? := by
      intro r c
      rw [List.flatten_cons, List.getElem?_append_right (by rw [hx, Nat.succ_mul]; omega), hx,
        Nat.succ_mul]
      congr 1
      omega
    rw [List.range_succ_eq_map, List.flatMap_cons, List.flatMap_map, hfirst]
    simp only [Nat.succ_eq_add_one, hnext, hrest]
    rw [List.map_cons, List.flatten_cons, List.map_append]

namespace Tensor

variable {α : Type}

/-- The leading columns of a dense tensor of rows are the leading elements of the rows. -/
theorem exists_narrow_last {type : TensorType} {batch : List Nat} {rows padded width : Nat}
    (haxes : type.HasAxes batch rows padded) (hwidth : width ≤ padded) {xs : Array α}
    (hsize : xs.size = type.numElements) {grid : List (List α)}
    (hgrid : IsGrid (volume batch * rows) padded grid) (hxs : xs.toList = grid.flatten) :
    ∃ t, (dense type xs hsize).narrow (type.rank - 1) 0 width = .ok t ∧
      t.type = type.withShape ⟨batch ++ [rows, width]⟩ ∧
      t.elements = (grid.map (·.take width)).flatten := by
  have hdims : type.dims = (batch ++ [rows]) ++ [padded] := by
    rw [show type.dims = _ from haxes, List.append_assoc]
    rfl
  have hlast : type.rank - 1 = (batch ++ [rows]).length := by
    rw [haxes.rank_eq, List.length_append]
    rfl
  have haxis : type.rank - 1 < type.rank := by
    rw [haxes.rank_eq]
    exact Nat.lt_succ_self _
  have hrange : 0 + width ≤ type.dims.getD (type.rank - 1) 0 := by
    rw [hlast, hdims, List.getD_eq_getElem?_getD, List.getElem?_append_right (Nat.le_refl _),
      Nat.sub_self]
    simpa using hwidth
  have hset : type.dims.set (type.rank - 1) width = (batch ++ [rows]) ++ [width] := by
    rw [hlast, hdims, List.set_append_right _ _ (Nat.le_refl _), Nat.sub_self]
    rfl
  obtain ⟨t, ht, htype, hstrides, hoffset, hstorage⟩ :=
    exists_narrow (t := dense type xs hsize) haxis hrange
  replace htype : t.type = type.withShape ⟨(batch ++ [rows]) ++ [width]⟩ := by
    rw [htype, ← hset]
    rfl
  refine ⟨t, ht, by rw [htype, List.append_assoc]; rfl, ?_⟩
  have hpositions : positions t.type.dims t.strides t.offset =
      (List.range (volume batch * rows)).flatMap fun r =>
        (List.range width).map fun c => r * padded + c := by
    have hcolumns := positions_columns (batch ++ [rows]) padded width 0
    rw [htype, hstrides, hoffset, Nat.zero_mul, Nat.add_zero]
    change positions ((batch ++ [rows]) ++ [width]) (rowMajor type.dims) 0 = _
    rw [hdims, hcolumns]
    simp
  have hgathered : t.gathered.map some = ((grid.map (·.take width)).flatten).map some := by
    rw [gathered_map_some, hpositions, hstorage, ← hgrid.flatMap_take hwidth, ← hxs,
      List.map_flatMap]
    simp only [List.map_map, Function.comp_def, Array.getElem?_toList]
    rfl
  rw [elements_eq_gathered]
  exact List.map_injective_iff.2 (fun _ _ => Option.some.inj) hgathered

end Tensor

end TraceSubstitution
