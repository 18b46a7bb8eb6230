import TraceSubstitution.Flash.Executor
import TraceSubstitution.Proofs.Flash.Output
import TraceSubstitution.Proofs.Tensor.Columns

/-!
# The gradients of the fused kernel

The backward part finds the rows that it reads within their bounds. What it gathers
for a row (`BackwardRows.queryRow`, `keyRow` and `valueRow`) has the width of the row,
which is padded to a width that is never smaller (`le_paddedWidth`). Cutting a padded
gradient back removes just what was added (`unpad_paddedTensor`), so what is left does
not depend on the alignment (`exists_unpadded`).
-/

namespace TraceSubstitution

/-- The operands of a backward part, each in one piece. -/
def FlashBackwardInput.contiguous {α : Type} (x : FlashBackwardInput α) : FlashBackwardInput α where
  dOut := x.dOut.contiguous
  q := x.q.contiguous
  k := x.k.contiguous
  v := x.v.contiguous
  out := x.out.contiguous
  lse := x.lse.contiguous

namespace Flash

open Attention

theorem le_paddedWidth (alignment width : Nat) : width ≤ paddedWidth alignment width := by
  unfold paddedWidth
  have hpos : 0 < max alignment 1 := Nat.lt_of_lt_of_le Nat.one_pos (Nat.le_max_right _ _)
  have hdiv := Nat.div_add_mod' (width + max alignment 1 - 1) (max alignment 1)
  have hmod := Nat.mod_lt (width + max alignment 1 - 1) hpos
  dsimp only
  omega

variable {α : Type} [Scalar α]

/-- The rows of the operands lie in their buffers. -/
structure BackwardRows.Readable (l : Layout) (r : BackwardRows α) : Prop where
  dOut : r.dOut.Holds (l.heads * l.queries) ∧ r.dOut.width = l.valueDepth
  q : r.q.Holds (l.heads * l.queries) ∧ r.q.width = l.depth
  k : r.k.Holds (l.heads * l.keys) ∧ r.k.width = l.depth
  v : r.v.Holds (l.heads * l.keys) ∧ r.v.width = l.valueDepth
  out : r.out.Holds (l.heads * l.queries) ∧ r.out.width = l.valueDepth
  lse : r.lse.Holds (l.heads * l.queries) ∧ r.lse.width = 1

theorem query_queryTerms (scale : α) (query output out : List α) (lse : α)
    (keys : List (List α × List α)) :
    (queryTerms scale query output out lse keys).query = query := by
  unfold queryTerms
  split <;> rfl

theorem output_queryTerms (scale : α) (query output out : List α) (lse : α)
    (keys : List (List α × List α)) :
    (queryTerms scale query output out lse keys).output = output := by
  unfold queryTerms
  split <;> rfl

theorem length_gatherKeys {width : Nat} (t : QueryTerms α) {keys : List (List α × List α)}
    (h : ∀ e ∈ keys, e.1.length = width) : (gatherKeys width t keys).length = width := by
  refine length_gather (by simp) fun acc hacc e he => ?_
  rw [Scalar.length_addScaled, hacc, h e.2 (List.of_mem_zip he).2, Nat.min_self]

theorem length_gatherQueries {width : Nat} {terms : List (QueryTerms α)}
    (h : ∀ t ∈ terms, t.query.length = width) (j : Nat) :
    (gatherQueries width terms j).length = width := by
  refine length_gather (by simp) fun acc hacc t ht => ?_
  split
  · rw [Scalar.length_addScaled, hacc, h t ht, Nat.min_self]
  · exact hacc

theorem length_gatherOutputs {width : Nat} {terms : List (QueryTerms α)}
    (h : ∀ t ∈ terms, t.output.length = width) (j : Nat) :
    (gatherOutputs width terms j).length = width := by
  refine length_gather (by simp) fun acc hacc t ht => ?_
  split
  · rw [Scalar.length_addScaled, hacc, h t ht, Nat.min_self]
  · exact hacc

namespace BackwardRows

section

variable (l : Layout) (r : BackwardRows α) (scale : α) (causal : Bool) (head : Nat)

/-- The terms of query `i` of a head. -/
def termsAt (i : Nat) : QueryTerms α :=
  queryTerms scale (r.q.values (head * l.queries + i)) (r.dOut.values (head * l.queries + i))
    (r.out.values (head * l.queries + i))
    ((r.lse.values (head * l.queries + i)).headD Scalar.zero) (seenKeys l r.k r.v head i causal)

/-- The gradient of query `i` of a head. -/
def queryRow (i : Nat) : List α :=
  gatherKeys l.depth (r.termsAt l scale causal head i) (seenKeys l r.k r.v head i causal)

/-- The gradient of key `j` of a head. -/
def keyRow (j : Nat) : List α :=
  gatherQueries l.depth ((List.range l.queries).map (r.termsAt l scale causal head)) j

/-- The gradient of value `j` of a head. -/
def valueRow (j : Nat) : List α :=
  gatherOutputs l.valueDepth ((List.range l.queries).map (r.termsAt l scale causal head)) j

/-- The gradients of all queries. -/
def queryRows : List (List α) := table l.heads l.queries (r.queryRow l scale causal)

/-- The gradients of all keys. -/
def keyRows : List (List α) := table l.heads l.keys (r.keyRow l scale causal)

/-- The gradients of all values. -/
def valueRows : List (List α) := table l.heads l.keys (r.valueRow l scale causal)

/-- The gradients of all rows of a head. -/
def headRows : HeadGradients α where
  queries := (List.range l.queries).map (r.queryRow l scale causal head)
  keys := (List.range l.keys).map (r.keyRow l scale causal head)
  values := (List.range l.keys).map (r.valueRow l scale causal head)

end

section

variable (l : Layout) (r : BackwardRows α) (scale : α) (causal : Bool) (head : Nat)

/-- The probability of key `j` and the gradient of its score, for a query `i` that sees it. -/
def pairTerms (i j : Nat) : Option (α × α) :=
  if Scalar.same ((r.lse.values (head * l.queries + i)).headD Scalar.zero) Scalar.lowest then none
  else if j < l.visible i causal then
    some (keyTerms scale (r.q.values (head * l.queries + i))
      (r.dOut.values (head * l.queries + i))
      (Scalar.dot (r.dOut.values (head * l.queries + i)) (r.out.values (head * l.queries + i)))
      ((r.lse.values (head * l.queries + i)).headD Scalar.zero) (r.k.values (head * l.keys + j))
      (r.v.values (head * l.keys + j)))
  else none

theorem getElem?_probabilities (i j : Nat) : (r.termsAt l scale causal head i).probabilities[j]? =
    (r.pairTerms l scale causal head i j).map (·.1) := by
  unfold termsAt queryTerms pairTerms seenKeys
  split
  · rfl
  · by_cases hj : j < l.visible i causal <;> simp [hj]

theorem getElem?_scores (i j : Nat) : (r.termsAt l scale causal head i).scores[j]? =
    (r.pairTerms l scale causal head i j).map (·.2) := by
  unfold termsAt queryTerms pairTerms seenKeys
  split
  · rfl
  · by_cases hj : j < l.visible i causal <;> simp [hj]

theorem queryRow_eq (i : Nat) : r.queryRow l scale causal head i =
    (List.range (l.visible i causal)).foldl (fun acc j =>
      (r.pairTerms l scale causal head i j).elim acc fun t =>
        Scalar.addScaled acc t.2 (r.k.values (head * l.keys + j)))
      (List.replicate l.depth Scalar.zero) := by
  unfold queryRow gatherKeys termsAt queryTerms pairTerms seenKeys
  split
  · simp
  · simp only [List.map_map, List.zip_map', List.foldl_map]
    refine List.foldl_ext _ _ _ fun acc j hj => ?_
    rw [if_pos (List.mem_range.1 hj)]
    rfl

theorem keyRow_eq (j : Nat) : r.keyRow l scale causal head j =
    (List.range l.queries).foldl (fun acc i =>
      (r.pairTerms l scale causal head i j).elim acc fun t =>
        Scalar.addScaled acc t.2 (r.q.values (head * l.queries + i)))
      (List.replicate l.depth Scalar.zero) := by
  unfold keyRow gatherQueries
  rw [List.foldl_map]
  simp only [getElem?_scores]
  congr 1
  funext acc i
  unfold termsAt
  rw [query_queryTerms]
  cases r.pairTerms l scale causal head i j <;> rfl

theorem valueRow_eq (j : Nat) : r.valueRow l scale causal head j =
    (List.range l.queries).foldl (fun acc i =>
      (r.pairTerms l scale causal head i j).elim acc fun t =>
        Scalar.addScaled acc t.1 (r.dOut.values (head * l.queries + i)))
      (List.replicate l.valueDepth Scalar.zero) := by
  unfold valueRow gatherOutputs
  rw [List.foldl_map]
  simp only [getElem?_probabilities]
  congr 1
  funext acc i
  unfold termsAt
  rw [output_queryTerms]
  cases r.pairTerms l scale causal head i j <;> rfl

end

namespace Readable

variable {l : Layout} {r : BackwardRows α} (h : BackwardRows.Readable l r)
include h

theorem length_queryRow (scale : α) (causal : Bool) {head : Nat} (hhead : head < l.heads)
    (i : Nat) : (r.queryRow l scale causal head i).length = l.depth :=
  length_gatherKeys _ fun _ he => (length_of_mem_seenKeys h.k.1 h.v.1 hhead he).1.trans h.k.2

theorem length_keyRow (scale : α) (causal : Bool) {head : Nat} (hhead : head < l.heads)
    (j : Nat) : (r.keyRow l scale causal head j).length = l.depth := by
  refine length_gatherQueries (fun t ht => ?_) j
  obtain ⟨i, hi, rfl⟩ := List.mem_map.1 ht
  unfold termsAt
  rw [query_queryTerms, h.q.1.length_values (index_lt hhead (List.mem_range.1 hi)), h.q.2]

theorem length_valueRow (scale : α) (causal : Bool) {head : Nat} (hhead : head < l.heads)
    (j : Nat) : (r.valueRow l scale causal head j).length = l.valueDepth := by
  refine length_gatherOutputs (fun t ht => ?_) j
  obtain ⟨i, hi, rfl⟩ := List.mem_map.1 ht
  unfold termsAt
  rw [output_queryTerms, h.dOut.1.length_values (index_lt hhead (List.mem_range.1 hi)), h.dOut.2]

theorem isGrid_queryRows (scale : α) (causal : Bool) :
    IsGrid (l.heads * l.queries) l.depth (r.queryRows l scale causal) :=
  isGrid_table fun _ hhead i _ => h.length_queryRow scale causal hhead i

theorem isGrid_keyRows (scale : α) (causal : Bool) :
    IsGrid (l.heads * l.keys) l.depth (r.keyRows l scale causal) :=
  isGrid_table fun _ hhead j _ => h.length_keyRow scale causal hhead j

theorem isGrid_valueRows (scale : α) (causal : Bool) :
    IsGrid (l.heads * l.keys) l.valueDepth (r.valueRows l scale causal) :=
  isGrid_table fun _ hhead j _ => h.length_valueRow scale causal hhead j

theorem termsOf_eq_ok (scale : α) (causal : Bool) {head i : Nat} (hhead : head < l.heads)
    (hi : i < l.queries) : termsOf l r scale causal head i =
      .ok (r.termsAt l scale causal head i, seenKeys l r.k r.v head i causal) := by
  have hrow := index_lt hhead hi
  obtain ⟨lse, hlse⟩ :=
    List.length_eq_one_iff.1 ((h.lse.1.length_values hrow).trans h.lse.2)
  unfold termsOf termsAt
  simp only [h.q.1.row_eq_ok hrow, h.dOut.1.row_eq_ok hrow, h.out.1.row_eq_ok hrow,
    h.lse.1.row_eq_ok hrow, hlse, List.head?_cons, orPanic_some, ok_bind,
    visibleKeys_eq_ok h.k.1 h.v.1 hhead, List.headD_cons]
  rfl

theorem headGradients_eq_ok (scale : α) (causal : Bool) {head : Nat} (hhead : head < l.heads) :
    headGradients l r scale causal head = .ok (r.headRows l scale causal head) := by
  unfold headGradients
  rw [mapM_eq_ok fun i hi => h.termsOf_eq_ok scale causal hhead (List.mem_range.1 hi), ok_bind]
  simp only [List.map_map, Function.comp_def]
  rfl

/-- The gradients of all heads, unless no gradient has an element. -/
theorem exists_gradients (scale : α) (causal : Bool) (width valueWidth : Nat) :
    ∃ heads, gradients l r scale causal width valueWidth = .ok heads ∧
      (heads = [] ∧ l.gradientSize width valueWidth = 0 ∨
        heads = (List.range l.heads).map (r.headRows l scale causal)) := by
  unfold gradients
  split
  · next hzero => exact ⟨[], rfl, .inl ⟨rfl, hzero⟩⟩
  · exact ⟨_, mapM_eq_ok fun head hhead =>
      h.headGradients_eq_ok scale causal (List.mem_range.1 hhead), .inr rfl⟩

end Readable

end BackwardRows

theorem length_padRow {width : Nat} {row : List α} (h : row.length ≤ width) :
    (padRow width row).length = width := by
  unfold padRow
  rw [List.length_append, List.length_replicate]
  omega

theorem take_padRow (padded : Nat) {width : Nat} {row : List α} (h : row.length = width) :
    (padRow padded row).take width = row :=
  List.take_left' h

theorem padRow_eq_self {width : Nat} {row : List α} (h : row.length = width) :
    padRow width row = row := by
  simp [padRow, h]

theorem isGrid_padRow {rows width padded : Nat} {grid : List (List α)}
    (h : IsGrid rows width grid) (hpadded : width ≤ padded) :
    IsGrid rows padded (grid.map (padRow padded)) := by
  refine ⟨by rw [List.length_map, h.length], fun row hrow => ?_⟩
  obtain ⟨source, hsource, rfl⟩ := List.mem_map.1 hrow
  exact length_padRow (h.width source hsource ▸ hpadded)

/-- A gradient with one row for every row of the operand can be made. -/
theorem exists_paddedTensor {operand : Tensor α} {batch : List Nat} {rows width padded : Nat}
    (h : operand.type.HasAxes batch rows width) (hpadded : width ≤ padded)
    {count : Nat} (hcount : count = volume batch * rows) {grid : List (List α)}
    (hgrid : IsGrid count width grid) :
    ∃ hsize, paddedTensor operand padded grid = .ok (Tensor.dense
      (operand.type.withShape ⟨batch ++ [rows, padded]⟩)
      ((grid.map (padRow padded)).flatten.toArray.map (Scalar.narrow operand.type.dtype))
        hsize) := by
  have hsize : (grid.map (padRow padded)).flatten.toArray.size =
      (operand.type.withShape ⟨batch ++ [rows, padded]⟩).numElements := by
    rw [List.size_toArray, (isGrid_padRow hgrid hpadded).length_flatten, hcount,
      (TensorType.HasAxes.withShape operand.type batch rows padded).numElements]
  unfold paddedTensor
  rw [h.withLastDim]
  exact ⟨by rw [Array.size_map, hsize], dif_pos hsize⟩

omit [Scalar α] in
theorem withShape_hasAxes {type : TensorType} {batch : List Nat} {rows width : Nat}
    (h : type.HasAxes batch rows width) : type.withShape ⟨batch ++ [rows, width]⟩ = type := by
  rw [← show type.dims = _ from h]
  rfl

theorem paddedTensor_self {operand : Tensor α} {batch : List Nat} {rows width count : Nat}
    (h : operand.type.HasAxes batch rows width) {grid : List (List α)}
    (hgrid : IsGrid count width grid) :
    paddedTensor operand width grid = Tensor.ofElements operand.type grid.flatten.toArray := by
  have hrows : grid.map (padRow width) = grid :=
    (List.map_congr_left fun row hrow => padRow_eq_self (hgrid.width row hrow)).trans
      (List.map_id' grid)
  unfold paddedTensor
  rw [h.withLastDim, withShape_hasAxes h, hrows]
  rfl

/-- The columns of a padded gradient that belong to its operand hold what it was padded from. -/
theorem exists_narrow_paddedTensor {operand g : Tensor α} {batch : List Nat}
    {rows width padded count : Nat} (h : operand.type.HasAxes batch rows width)
    (hpadded : width ≤ padded) (hcount : count = volume batch * rows) {grid : List (List α)}
    (hgrid : IsGrid count width grid) (hg : paddedTensor operand padded grid = .ok g) :
    ∃ t, g.narrow (operand.type.rank - 1) 0 width = .ok t ∧ t.type = operand.type ∧
      t.elements = (grid.flatten.toArray.map (Scalar.narrow operand.type.dtype)).toList := by
  obtain ⟨hsize, hmade⟩ := exists_paddedTensor h hpadded hcount hgrid
  obtain rfl := Except.ok.inj (hg.symm.trans hmade)
  have haxes := TensorType.HasAxes.withShape operand.type batch rows padded
  have hwide : IsGrid (volume batch * rows) padded
      (grid.map fun row => (padRow padded row).map (Scalar.narrow operand.type.dtype)) := by
    refine ⟨by rw [List.length_map, hgrid.length, hcount], fun row hrow => ?_⟩
    obtain ⟨source, hsource, rfl⟩ := List.mem_map.1 hrow
    rw [List.length_map, length_padRow (hgrid.width source hsource ▸ hpadded)]
  obtain ⟨t, ht, htype, helements⟩ := Tensor.exists_narrow_last haxes hpadded hsize hwide
    (by simp [List.map_flatten, Function.comp_def])
  have hrows : grid.map (fun row =>
      ((padRow padded row).map (Scalar.narrow operand.type.dtype)).take width) =
        grid.map (·.map (Scalar.narrow operand.type.dtype)) := by
    refine List.map_congr_left fun row hrow => ?_
    rw [← List.map_take, take_padRow padded (hgrid.width row hrow)]
  refine ⟨t, ?_, htype.trans (withShape_hasAxes h), ?_⟩
  · rwa [h.rank_eq, ← haxes.rank_eq]
  · rw [helements, List.map_map]
    simpa [List.map_flatten, Function.comp_def] using congrArg List.flatten hrows

/-- Cutting a padded gradient back to the width of its operand leaves what it was padded from. -/
theorem unpad_paddedTensor {operand g : Tensor α} {batch : List Nat}
    {rows width padded count : Nat} (h : operand.type.HasAxes batch rows width)
    (hpadded : width ≤ padded) (hcount : count = volume batch * rows) {grid : List (List α)}
    (hgrid : IsGrid count width grid) (hg : paddedTensor operand padded grid = .ok g) :
    unpad g operand = Tensor.ofElements operand.type grid.flatten.toArray := by
  have hlast : Require.lastDim g.type = .ok padded := by
    obtain ⟨hsize, hmade⟩ := exists_paddedTensor h hpadded hcount hgrid
    obtain rfl := Except.ok.inj (hg.symm.trans hmade)
    exact Require.lastDim_eq_ok_iff.2
      (TensorType.HasAxes.withShape operand.type batch rows padded).lastDim?
  unfold unpad
  rw [Require.lastDim_eq_ok_iff.2 h.lastDim?, hlast]
  simp only [ok_bind]
  split
  · next heq =>
    obtain rfl := heq
    exact hg.symm.trans (paddedTensor_self h hgrid)
  · obtain ⟨t, ht, htype, hcut⟩ := exists_narrow_paddedTensor h hpadded hcount hgrid hg
    have hsize : grid.flatten.toArray.size = operand.type.numElements := by
      rw [List.size_toArray, hgrid.length_flatten, hcount, h.numElements]
    unfold Tensor.ofElements
    rw [ht, ok_bind, dif_pos hsize, Tensor.contiguous_eq_dense]
    simp only [htype, hcut]
    rfl

/-- The gradient of an operand has the rows of all heads. They are left out if no gradient has an
element; then this one has none, however many rows it has. -/
theorem paddedTensor_flatten {operand : Tensor α} {count rows width padded size : Nat}
    {heads : List (HeadGradients α)} {g : Nat → HeadGradients α}
    (hheads : heads = [] ∧ size = 0 ∨ heads = (List.range count).map g)
    (part : HeadGradients α → List (List α)) {f : Nat → Nat → List α}
    (hpart : ∀ head, part (g head) = (List.range rows).map (f head))
    (hgrid : IsGrid (count * rows) width (table count rows f)) (hpadded : width ≤ padded)
    (hzero : size = 0 → count * rows * padded = 0) :
    paddedTensor operand padded (heads.map part).flatten =
      paddedTensor operand padded (table count rows f) := by
  rcases hheads with ⟨rfl, hsize⟩ | rfl
  · have hempty : ((table count rows f).map (padRow padded)).flatten = [] := by
      refine List.eq_nil_of_length_eq_zero ?_
      rw [(isGrid_padRow hgrid hpadded).length_flatten, hzero hsize]
    unfold paddedTensor
    rw [hempty]
    rfl
  · rw [List.map_map, ← List.flatMap_def]
    exact congrArg _ (congrArg (List.flatMap · _) (funext hpart))

omit [Scalar α] in
/-- What is checked before a backward part. -/
theorem backwardLayout_eq_ok_iff {x : FlashBackwardInput α} {l : Layout} :
    backwardLayout x = .ok l ↔ layout x.q x.k x.v = .ok l ∧
      x.dOut.type.shape = x.out.type.shape ∧
      x.out.type.numElements = l.heads * l.queries * l.valueDepth ∧
      x.lse.size = l.heads * l.queries ∧ x.dOut.isContiguous = true ∧
      x.out.isContiguous = true ∧ x.lse.isContiguous = true := by
  unfold backwardLayout
  rw [bind_eq_ok_iff]
  simp only [check_bind_eq_ok_iff, ensure_eq_ok_iff, Bool.and_eq_true, decide_eq_true_iff]
  constructor
  · rintro ⟨l, hlayout, ⟨hshape, hout⟩, hlse, ⟨⟨hdOut, houtDense⟩, hlseDense⟩, hpure⟩
    obtain rfl := Except.ok.inj hpure
    exact ⟨hlayout, hshape, hout, hlse, hdOut, houtDense, hlseDense⟩
  · rintro ⟨hlayout, hshape, hout, hlse, hdOut, houtDense, hlseDense⟩
    exact ⟨l, hlayout, ⟨hshape, hout⟩, hlse, ⟨⟨hdOut, houtDense⟩, hlseDense⟩, rfl⟩

/-- The operands of a backward part, read as rows. -/
def BackwardRows.ofInput (l : Layout) (x : FlashBackwardInput α) : BackwardRows α where
  dOut := x.dOut.asRows l.valueDepth
  q := x.q.asRows l.depth
  k := x.k.asRows l.depth
  v := x.v.asRows l.valueDepth
  out := x.out.asRows l.valueDepth
  lse := x.lse.asRows 1

omit [Scalar α] in
theorem readable_ofInput {x : FlashBackwardInput α} {l : Layout} (h : backwardLayout x = .ok l) :
    (BackwardRows.ofInput l x).Readable l := by
  obtain ⟨hlayout, hshape, hout, hlse, -⟩ := backwardLayout_eq_ok_iff.1 h
  obtain ⟨-, -, -, outer, inner, hl⟩ := exists_describes hlayout
  have hdOut : l.heads * l.queries * l.valueDepth = x.dOut.type.numElements := by
    unfold TensorType.numElements at hout ⊢
    rw [hshape, hout]
  exact ⟨⟨Tensor.holds_asRows hdOut, rfl⟩, ⟨hl.holds_query, rfl⟩, ⟨hl.holds_key, rfl⟩,
    ⟨hl.holds_value, rfl⟩, ⟨Tensor.holds_asRows hout.symm, rfl⟩,
    ⟨Tensor.holds_asRows ((Nat.mul_one _).trans hlse.symm), rfl⟩⟩

/-- The backward part returns the padded gradients of all rows. -/
theorem exists_backward {x : FlashBackwardInput α} {l : Layout} (h : backwardLayout x = .ok l)
    (alignment : Nat) (scale : α) (causal : Bool) :
    ∃ g, backward alignment x scale causal = .ok g ∧
      paddedTensor x.q (paddedWidth alignment l.depth)
        ((BackwardRows.ofInput l x).queryRows l scale causal) = .ok g.dq ∧
      paddedTensor x.k (paddedWidth alignment l.depth)
        ((BackwardRows.ofInput l x).keyRows l scale causal) = .ok g.dk ∧
      paddedTensor x.v (paddedWidth alignment l.valueDepth)
        ((BackwardRows.ofInput l x).valueRows l scale causal) = .ok g.dv := by
  have hr := readable_ofInput h
  obtain ⟨hlayout, -, -, -, hdOut, hout, hlse⟩ := backwardLayout_eq_ok_iff.1 h
  obtain ⟨hq, hk, hv, outer, inner, hl⟩ := exists_describes hlayout
  obtain ⟨heads, hgradients, hheads⟩ := hr.exists_gradients scale causal
    (paddedWidth alignment l.depth) (paddedWidth alignment l.valueDepth)
  have hzero : l.gradientSize (paddedWidth alignment l.depth)
      (paddedWidth alignment l.valueDepth) = 0 →
      l.heads * l.queries * paddedWidth alignment l.depth = 0 ∧
        l.heads * l.keys * paddedWidth alignment l.depth = 0 ∧
        l.heads * l.keys * paddedWidth alignment l.valueDepth = 0 := by
    unfold Layout.gradientSize
    omega
  have hdepth := le_paddedWidth alignment l.depth
  have hvalueDepth := le_paddedWidth alignment l.valueDepth
  obtain ⟨_, hdq⟩ := exists_paddedTensor hl.query hdepth (hl.heads_mul _)
    (hr.isGrid_queryRows scale causal)
  obtain ⟨_, hdk⟩ := exists_paddedTensor hl.key hdepth (hl.heads_mul _)
    (hr.isGrid_keyRows scale causal)
  obtain ⟨_, hdv⟩ := exists_paddedTensor hl.value hvalueDepth (hl.heads_mul _)
    (hr.isGrid_valueRows scale causal)
  have hqueries := (paddedTensor_flatten hheads (·.queries) (fun _ => rfl)
    (hr.isGrid_queryRows scale causal) hdepth fun hsize => (hzero hsize).1).trans hdq
  have hkeys := (paddedTensor_flatten hheads (·.keys) (fun _ => rfl)
    (hr.isGrid_keyRows scale causal) hdepth fun hsize => (hzero hsize).2.1).trans hdk
  have hvalues := (paddedTensor_flatten hheads (·.values) (fun _ => rfl)
    (hr.isGrid_valueRows scale causal) hvalueDepth fun hsize => (hzero hsize).2.2).trans hdv
  refine ⟨⟨_, _, _⟩, ?_, hdq, hdk, hdv⟩
  unfold backward
  simp only [h, ok_bind, Tensor.rows_eq_ok hdOut, Tensor.rows_eq_ok hq, Tensor.rows_eq_ok hk,
    Tensor.rows_eq_ok hv, Tensor.rows_eq_ok hout, Tensor.rows_eq_ok hlse]
  change (gradients l (BackwardRows.ofInput l x) scale causal _ _ >>= _) = _
  rw [hgradients, ok_bind, hqueries, ok_bind, hkeys, ok_bind, hvalues]
  rfl

/-- Cut back, the gradients have the types of the operands and the rows of all heads; the alignment
makes no difference. -/
theorem exists_unpadded {x : FlashBackwardInput α} {l : Layout} (h : backwardLayout x = .ok l)
    (scale : α) (causal : Bool) : ∃ dq dk dv : Tensor α,
      Tensor.ofElements x.q.type
        ((BackwardRows.ofInput l x).queryRows l scale causal).flatten.toArray = .ok dq ∧
      Tensor.ofElements x.k.type
        ((BackwardRows.ofInput l x).keyRows l scale causal).flatten.toArray = .ok dk ∧
      Tensor.ofElements x.v.type
        ((BackwardRows.ofInput l x).valueRows l scale causal).flatten.toArray = .ok dv ∧
      ∀ alignment, ∃ g, backward alignment x scale causal = .ok g ∧
        unpad g.dq x.q = .ok dq ∧ unpad g.dk x.k = .ok dk ∧ unpad g.dv x.v = .ok dv := by
  have hr := readable_ofInput h
  obtain ⟨-, -, -, outer, inner, hl⟩ := exists_describes (backwardLayout_eq_ok_iff.1 h).1
  have hqueries := hr.isGrid_queryRows scale causal
  have hkeys := hr.isGrid_keyRows scale causal
  have hvalues := hr.isGrid_valueRows scale causal
  obtain ⟨dq, hdq, -⟩ := Tensor.exists_ofGrid hqueries hl.queryElements
  obtain ⟨dk, hdk, -⟩ := Tensor.exists_ofGrid hkeys hl.keyElements
  obtain ⟨dv, hdv, -⟩ := Tensor.exists_ofGrid hvalues hl.valueElements
  refine ⟨dq, dk, dv, hdq, hdk, hdv, fun alignment => ?_⟩
  obtain ⟨g, hg, hgdq, hgdk, hgdv⟩ := exists_backward h alignment scale causal
  refine ⟨g, hg, ?_, ?_, ?_⟩
  · rw [unpad_paddedTensor hl.query (le_paddedWidth _ _) (hl.heads_mul _) hqueries hgdq, hdq]
  · rw [unpad_paddedTensor hl.key (le_paddedWidth _ _) (hl.heads_mul _) hkeys hgdk, hdk]
  · rw [unpad_paddedTensor hl.value (le_paddedWidth _ _) (hl.heads_mul _) hvalues hgdv, hdv]

omit [Scalar α] in
/-- The kernel accepts operands of one layout that lie in one piece each. -/
theorem Layout.Describes.backwardLayout_of_dense {l : Layout} {outer inner : Nat}
    {x : FlashBackwardInput α} (h : l.Describes outer inner x.q.type x.k.type x.v.type)
    (hlayout : layout x.q x.k x.v = .ok l)
    (hdOut : x.dOut.type.HasAxes [outer, inner] l.queries l.valueDepth)
    (hout : x.out.type.shape = x.dOut.type.shape)
    (hlse : x.lse.type.dims = [outer, inner, l.queries]) (hdOutDense : x.dOut.isContiguous = true)
    (houtDense : x.out.isContiguous = true) (hlseDense : x.lse.isContiguous = true) :
    backwardLayout x = .ok l := by
  have houtAxes : x.out.type.HasAxes [outer, inner] l.queries l.valueDepth :=
    (congrArg Shape.dims hout).trans hdOut
  refine backwardLayout_eq_ok_iff.2 ⟨hlayout, hout.symm, ?_, (h.logElements hlse).symm,
    hdOutDense, houtDense, hlseDense⟩
  rw [houtAxes.numElements, h.heads_mul]

omit [Scalar α] in
/-- The kernel finds the sizes of operands that agree and lie in one piece. -/
theorem Layout.Describes.backwardLayout_eq_ok {l : Layout} {outer inner : Nat}
    {x : FlashBackwardInput α} (h : l.Describes outer inner x.q.type x.k.type x.v.type)
    (hdOut : x.dOut.type.HasAxes [outer, inner] l.queries l.valueDepth)
    (hout : x.out.type = x.dOut.type) (hlse : x.lse.type.dims = [outer, inner, l.queries]) :
    backwardLayout x.contiguous = .ok l := by
  refine h.contiguous.backwardLayout_of_dense (x := x.contiguous) h.layout_eq_ok ?_ ?_ ?_
    x.dOut.isContiguous_contiguous x.out.isContiguous_contiguous x.lse.isContiguous_contiguous
  · exact x.dOut.type_contiguous ▸ hdOut
  · simp [FlashBackwardInput.contiguous, hout]
  · simpa [FlashBackwardInput.contiguous] using hlse

end Flash

end TraceSubstitution
