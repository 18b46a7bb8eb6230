import TraceSubstitution.Flash.Kernel
import TraceSubstitution.Proofs.Attention.Sizes
import TraceSubstitution.Proofs.Attention.Tables

/-!
# The output of the fused kernel

The sizes that the kernel finds are those of its operands (`Layout.Describes`), so it
reads its rows within their bounds. However the keys are cut into blocks, every
step of a stream keeps the width of what it has added up, so the output has one row
of the width of the values for every query: what the query attends to (`attendAt`)
among the keys that it sees (`exists_forward`).
-/

namespace TraceSubstitution

namespace Flash

open Attention

variable {α : Type}

/-- The sizes of a call are those of its operands. -/
structure Layout.Describes (l : Layout) (outer inner : Nat) (q k v : TensorType) : Prop where
  heads : l.heads = outer * inner
  query : q.HasAxes [outer, inner] l.queries l.depth
  key : k.HasAxes [outer, inner] l.keys l.depth
  value : v.HasAxes [outer, inner] l.keys l.valueDepth

/-- A type with four axes has two leading axes and two more. -/
theorem exists_hasAxes {type : TensorType} (h : type.rank = 4) : ∃ outer inner rows width,
    type.HasAxes [outer, inner] rows width := by
  unfold TensorType.HasAxes
  have hlength : type.dims.length = 4 := h
  match htype : type.dims, hlength with
  | [outer, inner, rows, width], _ => exact ⟨outer, inner, rows, width, rfl⟩

/-- The sizes of operands that the kernel accepts describe them, and each lies in one piece. -/
theorem exists_describes {l : Layout} {q k v : Tensor α} (h : layout q k v = .ok l) :
    q.isContiguous = true ∧ k.isContiguous = true ∧ v.isContiguous = true ∧
      ∃ outer inner, l.Describes outer inner q.type k.type v.type := by
  unfold layout checkOperand at h
  simp only [bind_assoc, check_bind_eq_ok_iff, ensure_eq_ok_iff, decide_eq_true_iff] at h
  obtain ⟨hqRank, hq, hkRank, hk, hvRank, hv, h⟩ := h
  obtain ⟨q0, q1, q2, q3, hqAxes⟩ := exists_hasAxes hqRank
  obtain ⟨k0, k1, k2, k3, hkAxes⟩ := exists_hasAxes hkRank
  obtain ⟨v0, v1, v2, v3, hvAxes⟩ := exists_hasAxes hvRank
  rw [show q.type.dims = _ from hqAxes, show k.type.dims = _ from hkAxes,
    show v.type.dims = _ from hvAxes] at h
  simp only [List.cons_append, List.nil_append, check_bind_eq_ok_iff, ensure_eq_ok_iff,
    Bool.and_eq_true, decide_eq_true_iff] at h
  obtain ⟨⟨⟨⟨rfl, rfl⟩, rfl⟩, rfl⟩, rfl, rfl, h⟩ := h
  obtain rfl := Except.ok.inj h
  exact ⟨hq, hk, hv, q0, q1, rfl, hqAxes, hkAxes, hvAxes⟩

namespace Layout.Describes

variable {l : Layout} {outer inner : Nat} {q k v : Tensor α}
  (h : l.Describes outer inner q.type k.type v.type)
include h

theorem contiguous :
    l.Describes outer inner q.contiguous.type k.contiguous.type v.contiguous.type := by
  simpa only [Tensor.type_contiguous] using h

theorem heads_mul (rows : Nat) : l.heads * rows = volume [outer, inner] * rows := by
  simp [h.heads]

theorem queryElements : l.heads * l.queries * l.depth = q.type.numElements := by
  rw [h.query.numElements, h.heads]
  simp

theorem keyElements : l.heads * l.keys * l.depth = k.type.numElements := by
  rw [h.key.numElements, h.heads]
  simp

theorem valueElements : l.heads * l.keys * l.valueDepth = v.type.numElements := by
  rw [h.value.numElements, h.heads]
  simp

/-- The output has one row for every query. -/
theorem outputElements : l.heads * l.queries * l.valueDepth =
    (q.type.withShape ⟨[outer, inner] ++ [l.queries, l.valueDepth]⟩).numElements := by
  rw [(TensorType.HasAxes.withShape q.type [outer, inner] l.queries l.valueDepth).numElements,
    h.heads_mul]

/-- There is one logarithm for every query. -/
theorem logElements {type : TensorType} (hdims : type.dims = [outer, inner, l.queries]) :
    l.heads * l.queries = type.numElements := by
  unfold TensorType.numElements Shape.numElements
  rw [show type.shape.dims = _ from hdims, h.heads]
  simp [Nat.mul_assoc]

theorem holds_query : (q.asRows l.depth).Holds (l.heads * l.queries) :=
  Tensor.holds_asRows h.queryElements

theorem holds_key : (k.asRows l.depth).Holds (l.heads * l.keys) :=
  Tensor.holds_asRows h.keyElements

theorem holds_value : (v.asRows l.valueDepth).Holds (l.heads * l.keys) :=
  Tensor.holds_asRows h.valueElements

/-- The kernel finds the sizes of operands that agree and lie in one piece. -/
theorem layout_eq_ok : layout q.contiguous k.contiguous v.contiguous = .ok l := by
  have hoperand : ∀ (name : String) {t : Tensor α} {rows width : Nat},
      t.type.HasAxes [outer, inner] rows width → checkOperand name t.contiguous = .ok () := by
    intro name t rows width ht
    unfold checkOperand
    rw [Tensor.type_contiguous, Tensor.isContiguous_contiguous, ht.rank_eq]
    rfl
  unfold layout
  rw [hoperand "q" h.query, hoperand "k" h.key, hoperand "v" h.value]
  simp only [ok_bind, Tensor.type_contiguous]
  rw [show q.type.dims = _ from h.query, show k.type.dims = _ from h.key,
    show v.type.dims = _ from h.value]
  obtain ⟨heads, queries, keys, depth, valueDepth⟩ := l
  obtain rfl : heads = outer * inner := h.heads
  simp

end Layout.Describes

theorem Layout.visible_le (l : Layout) (i : Nat) (causal : Bool) : l.visible i causal ≤ l.keys := by
  unfold visible
  split
  · exact Nat.min_le_right _ _
  · exact Nat.le_refl _

/-- The keys that query `i` of a head sees, with their values, where these rows can be read. -/
def seenKeys (l : Layout) (k v : Rows α) (head i : Nat) (causal : Bool) :
    List (List α × List α) :=
  (List.range (l.visible i causal)).map fun j =>
    (k.values (head * l.keys + j), v.values (head * l.keys + j))

section

variable {l : Layout} {k v : Rows α} (hk : k.Holds (l.heads * l.keys))
  (hv : v.Holds (l.heads * l.keys)) {head : Nat} (hhead : head < l.heads)
include hk hv hhead

theorem visibleKeys_eq_ok (i : Nat) (causal : Bool) :
    visibleKeys l k v head i causal = .ok (seenKeys l k v head i causal) := by
  refine mapM_eq_ok fun j hj => ?_
  have hj : j < l.keys := Nat.lt_of_lt_of_le (List.mem_range.1 hj) (l.visible_le i causal)
  rw [hk.row_eq_ok (index_lt hhead hj), hv.row_eq_ok (index_lt hhead hj)]
  rfl

theorem length_of_mem_seenKeys {i : Nat} {causal : Bool} {e : List α × List α}
    (he : e ∈ seenKeys l k v head i causal) : e.1.length = k.width ∧ e.2.length = v.width := by
  obtain ⟨j, hj, rfl⟩ := List.mem_map.1 he
  have hj : j < l.keys := Nat.lt_of_lt_of_le (List.mem_range.1 hj) (l.visible_le i causal)
  exact ⟨hk.length_values (index_lt hhead hj), hv.length_values (index_lt hhead hj)⟩

end

variable [Scalar α]

namespace Stream

variable {width : Nat}

theorem length_addKey {s : Stream α} (hs : s.acc.length = width) (score : α) {value : List α}
    (hvalue : value.length = width) : (s.addKey score value).acc.length = width := by
  unfold addKey
  rw [Scalar.length_addScaled, hs, hvalue, Nat.min_self]

theorem length_addBlock {s : Stream α} (hs : s.acc.length = width) {block : List (α × List α)}
    (hblock : ∀ e ∈ block, e.2.length = width) : (s.addBlock block).acc.length = width :=
  List.foldlRecOn (motive := fun s : Stream α => s.acc.length = width) block _
    (by rw [List.length_map, hs]) fun _ hs e he => length_addKey hs e.1 (hblock e he)

/-- A walk through the keys, block by block, keeps the width of the sum. -/
theorem length_addKeys {size : Nat} {s : Stream α} (hs : s.acc.length = width)
    {keys : List (α × List α)} (hkeys : ∀ e ∈ keys, e.2.length = width) :
    (s.addKeys size keys).acc.length = width := by
  -- The walk drops a whole block at a time, so the induction follows it and not the list.
  fun_induction addKeys size s keys with
  | case1 s => exact hs
  | case2 s key keys ih =>
    obtain ⟨hkey, hkeys⟩ := List.forall_mem_cons.1 hkeys
    refine ih (length_addBlock hs (List.forall_mem_cons.2 ⟨hkey, fun e he => ?_⟩)) fun e he => ?_
    · exact hkeys e (List.mem_of_mem_take he)
    · exact hkeys e (List.mem_of_mem_drop he)

theorem length_finish {s : Stream α} (hs : s.acc.length = width) : s.finish.1.length = width := by
  unfold finish
  split
  · rw [List.length_map, hs]
  · exact hs

end Stream

theorem length_attend {blockSize width : Nat} {scale : α} {query : List α}
    {keys : List (List α × List α)} (h : ∀ e ∈ keys, e.2.length = width) :
    (attend blockSize scale width query keys).1.length = width := by
  refine Stream.length_finish (Stream.length_addKeys (by simp [Stream.start]) fun e he => ?_)
  obtain ⟨key, hkey, rfl⟩ := List.mem_map.1 he
  exact h key hkey

/-- The output row and the logarithm of query `i` of a head. -/
def attendAt (l : Layout) (blockSize : Nat) (q k v : Rows α) (scale : α) (causal : Bool)
    (head i : Nat) : List α × α :=
  attend blockSize scale l.valueDepth (q.values (head * l.queries + i))
    (seenKeys l k v head i causal)

section

variable {l : Layout} {q k v : Rows α} (hq : q.Holds (l.heads * l.queries))
  (hk : k.Holds (l.heads * l.keys)) (hv : v.Holds (l.heads * l.keys)) (blockSize : Nat)
  (scale : α) (causal : Bool)
include hk hv

theorem length_attendAt (hwidth : v.width = l.valueDepth) {head : Nat} (hhead : head < l.heads)
    (i : Nat) : (attendAt l blockSize q k v scale causal head i).1.length = l.valueDepth :=
  length_attend fun _ he => (length_of_mem_seenKeys hk hv hhead he).2.trans hwidth

include hq

/-- Every query of every head attends to the keys that it sees. -/
theorem exists_attendAll : ∃ rows, attendAll l blockSize q k v scale causal = .ok rows ∧
    rows.flatten = table l.heads l.queries (attendAt l blockSize q k v scale causal) := by
  unfold attendAll
  split
  · next hzero => exact ⟨[], rfl, by simp [table, hzero]⟩
  · refine ⟨_, mapM_eq_ok fun head hhead => mapM_eq_ok fun i hi => ?_, List.flatMap_def.symm⟩
    have hhead := List.mem_range.1 hhead
    rw [hq.row_eq_ok (index_lt hhead (List.mem_range.1 hi)), ok_bind,
      visibleKeys_eq_ok hk hv hhead, ok_bind]
    rfl

end

/-- The kernel returns what every query attends to. -/
theorem Layout.Describes.exists_forward {l : Layout} {outer inner : Nat} {q k v : Tensor α}
    (h : l.Describes outer inner q.type k.type v.type) (hlayout : layout q k v = .ok l)
    (blockSize : Nat) (scale : α) (causal : Bool) :
    ∃ r, forward blockSize q k v scale causal = .ok r ∧
      r.primary.type = q.type.withShape ⟨[outer, inner] ++ [l.queries, l.valueDepth]⟩ ∧
      r.auxiliary.type = ⟨⟨[outer, inner, l.queries]⟩, .f32, q.type.device⟩ ∧
      r.primary.elements = ((table l.heads l.queries (attendAt l blockSize (q.asRows l.depth)
        (k.asRows l.depth) (v.asRows l.valueDepth) scale causal)).map (·.1)).flatten.map
          (Scalar.narrow q.type.dtype) ∧
      r.auxiliary.elements = ((table l.heads l.queries (attendAt l blockSize (q.asRows l.depth)
        (k.asRows l.depth) (v.asRows l.valueDepth) scale causal)).map (·.2)).map
          (Scalar.narrow .f32) := by
  obtain ⟨hq, hk, hv, -⟩ := exists_describes hlayout
  obtain ⟨rows, hrows, hflatten⟩ := exists_attendAll h.holds_query h.holds_key h.holds_value
    blockSize scale causal
  have hgrid : IsGrid (l.heads * l.queries) l.valueDepth ((table l.heads l.queries (attendAt l
      blockSize (q.asRows l.depth) (k.asRows l.depth) (v.asRows l.valueDepth) scale causal)).map
        (·.1)) := by
    rw [map_table]
    exact isGrid_table fun head hhead i _ =>
      length_attendAt h.holds_key h.holds_value blockSize scale causal rfl hhead i
  have htake : q.type.dims.take 3 = [outer, inner, l.queries] := by
    rw [show q.type.dims = _ from h.query]
    rfl
  have hlse : Shape.ofDims? (q.type.dims.take 3) = some ⟨[outer, inner, l.queries]⟩ := by
    rw [htake]
    rfl
  rw [← hflatten] at hgrid ⊢
  have hlogs : (rows.flatten.map (·.2)).toArray.size =
      (⟨⟨[outer, inner, l.queries]⟩, .f32, q.type.device⟩ : TensorType).numElements := by
    rw [List.size_toArray, List.length_map, hflatten, length_table]
    exact h.logElements rfl
  obtain ⟨primary, hprimary, hprimaryType, hprimaryElements⟩ :=
    Tensor.exists_ofGrid hgrid h.outputElements
  obtain ⟨auxiliary, hauxiliary, hauxiliaryType, hauxiliaryElements⟩ :=
    Tensor.exists_ofElements hlogs
  refine ⟨⟨primary, auxiliary⟩, ?_, hprimaryType, hauxiliaryType, ?_, ?_⟩
  · unfold forward
    rw [hlayout]
    simp only [ok_bind, Tensor.rows_eq_ok hq, Tensor.rows_eq_ok hk, Tensor.rows_eq_ok hv, hrows,
      h.query.withLastDim, hlse, orPanic_some, hprimary, hauxiliary]
    rfl
  · rw [hprimaryElements, Array.toList_map]
    rfl
  · rw [hauxiliaryElements, Array.toList_map]

theorem Layout.Describes.returns_forward {l : Layout} {outer inner : Nat} {q k v : Tensor α}
    (h : l.Describes outer inner q.type k.type v.type) (blockSize : Nat) (scale : α)
    (causal : Bool) :
    Returns (forward blockSize q.contiguous k.contiguous v.contiguous scale causal) fun r =>
      r.primary.type = q.type.withShape ⟨[outer, inner] ++ [l.queries, l.valueDepth]⟩ ∧
        r.auxiliary.type = ⟨⟨[outer, inner, l.queries]⟩, .f32, q.type.device⟩ := by
  obtain ⟨r, hr, hprimary, hauxiliary, -⟩ :=
    h.contiguous.exists_forward h.layout_eq_ok blockSize scale causal
  rw [Tensor.type_contiguous] at hprimary hauxiliary
  exact returns_of_eq_ok hr ⟨hprimary, hauxiliary⟩

end Flash

end TraceSubstitution
