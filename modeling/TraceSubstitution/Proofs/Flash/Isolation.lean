import TraceSubstitution.Proofs.Flash.Gradients
import TraceSubstitution.Scalar.Single

/-!
# The fused kernel keeps rows apart

Two runs of the kernel are compared, over scalars of which nothing is known. A row of
a result is the same in both as soon as the rows that it may depend on are: a query
depends on itself and on the keys that it sees, a key on itself and on the queries that
see it, and nothing on another head. So under a causal mask nothing before a key can
tell what it is.
-/

namespace TraceSubstitution

namespace Flash

open Attention

variable {α : Type}

/-- Key `j` is not hidden from query `i` by a causal mask. -/
def Sees (causal : Bool) (i j : Nat) : Prop := causal = true → j ≤ i

theorem Layout.lt_visible_iff (l : Layout) (i j : Nat) (causal : Bool) :
    j < l.visible i causal ↔ j < l.keys ∧ Sees causal i j := by
  unfold visible Sees
  cases causal with
  | false => simp
  | true =>
    simp only [if_true, true_imp_iff]
    omega

/-- Row `r` is the same in both tensors, which are read as rows of one width. -/
def SameRow (width : Nat) (t u : Tensor α) (r : Nat) : Prop :=
  rowOf t.elements width r = rowOf u.elements width r

/-- A key and its value are the same in both calls. -/
structure SameKey (l : Layout) (k v k' v' : Tensor α) (row : Nat) : Prop where
  key : SameRow l.depth k k' row
  value : SameRow l.valueDepth v v' row

/-- What the backward part reads of a query is the same in both calls. -/
structure SameQuery (l : Layout) (x x' : FlashBackwardInput α) (row : Nat) : Prop where
  dOut : SameRow l.valueDepth x.dOut x'.dOut row
  q : SameRow l.depth x.q x'.q row
  out : SameRow l.valueDepth x.out x'.out row
  lse : SameRow 1 x.lse x'.lse row

theorem SameRow.values_eq {width : Nat} {t u : Tensor α} {r : Nat} (h : SameRow width t u r) :
    (t.asRows width).values r = (u.asRows width).values r := by
  rw [values_asRows, values_asRows]
  exact h

theorem seenKeys_congr {l : Layout} {k v k' v' : Tensor α} {b i : Nat} {causal : Bool}
    (h : ∀ j < l.keys, Sees causal i j → SameKey l k v k' v' (b * l.keys + j)) :
    seenKeys l (k.asRows l.depth) (v.asRows l.valueDepth) b i causal =
      seenKeys l (k'.asRows l.depth) (v'.asRows l.valueDepth) b i causal := by
  refine List.map_congr_left fun j hj => ?_
  obtain ⟨hj, hsees⟩ := (l.lt_visible_iff i j causal).1 (List.mem_range.1 hj)
  rw [(h j hj hsees).key.values_eq, (h j hj hsees).value.values_eq]

variable [Scalar α]

namespace BackwardRows

variable {l : Layout} {x x' : FlashBackwardInput α} {scale : α} {causal : Bool} {b i j : Nat}

theorem queryRow_congr (hquery : SameQuery l x x' (b * l.queries + i))
    (hkeys : ∀ j < l.keys, Sees causal i j → SameKey l x.k x.v x'.k x'.v (b * l.keys + j)) :
    (ofInput l x).queryRow l scale causal b i = (ofInput l x').queryRow l scale causal b i := by
  unfold queryRow termsAt ofInput
  simp only [hquery.q.values_eq, hquery.dOut.values_eq, hquery.out.values_eq,
    hquery.lse.values_eq, seenKeys_congr hkeys]

/-- What a query has to do with a key depends on these two only, if it sees the key at all. -/
theorem pairTerms_congr
    (hquery : Sees causal i j → SameQuery l x x' (b * l.queries + i))
    (hkey : SameKey l x.k x.v x'.k x'.v (b * l.keys + j)) :
    (ofInput l x).pairTerms l scale causal b i j =
      (ofInput l x').pairTerms l scale causal b i j := by
  unfold pairTerms
  by_cases hsees : j < l.visible i causal
  · have hquery := hquery ((l.lt_visible_iff i j causal).1 hsees).2
    unfold ofInput
    simp only [hquery.q.values_eq, hquery.dOut.values_eq, hquery.out.values_eq,
      hquery.lse.values_eq, hkey.key.values_eq, hkey.value.values_eq]
  · simp only [if_neg hsees, ite_self]

theorem sees_of_pairTerms {t : α × α} {r : BackwardRows α}
    (h : r.pairTerms l scale causal b i j = some t) : Sees causal i j := by
  unfold pairTerms at h
  split at h
  · exact nomatch h
  · split at h
    · next hsees => exact ((l.lt_visible_iff i j causal).1 hsees).2
    · exact nomatch h

section

variable (hkey : SameKey l x.k x.v x'.k x'.v (b * l.keys + j))
  (hqueries : ∀ i < l.queries, Sees causal i j → SameQuery l x x' (b * l.queries + i))
include hkey hqueries

/-- Sums over the queries that see a key are the same if these queries are. -/
theorem foldl_pairTerms_congr {f f' : List α → α × α → Nat → List α}
    (hf : ∀ i, SameQuery l x x' (b * l.queries + i) → ∀ acc t, f acc t i = f' acc t i)
    (acc : List α) :
    (List.range l.queries).foldl (fun acc i =>
      ((ofInput l x).pairTerms l scale causal b i j).elim acc (f acc · i)) acc =
    (List.range l.queries).foldl (fun acc i =>
      ((ofInput l x').pairTerms l scale causal b i j).elim acc (f' acc · i)) acc := by
  refine List.foldl_ext _ _ _ fun acc i hi => ?_
  have hi := hqueries i (List.mem_range.1 hi)
  rw [pairTerms_congr hi hkey]
  cases hterms : (ofInput l x').pairTerms l scale causal b i j with
  | none => rfl
  | some t => exact hf i (hi (sees_of_pairTerms hterms)) acc t

theorem keyRow_congr :
    (ofInput l x).keyRow l scale causal b j = (ofInput l x').keyRow l scale causal b j := by
  rw [keyRow_eq, keyRow_eq]
  refine foldl_pairTerms_congr hkey hqueries (fun i hquery acc t => ?_) _
  exact congrArg (Scalar.addScaled acc t.2) hquery.q.values_eq

theorem valueRow_congr :
    (ofInput l x).valueRow l scale causal b j = (ofInput l x').valueRow l scale causal b j := by
  rw [valueRow_eq, valueRow_eq]
  refine foldl_pairTerms_congr hkey hqueries (fun i hquery acc t => ?_) _
  exact congrArg (Scalar.addScaled acc t.1) hquery.dOut.values_eq

end

end BackwardRows

/-- A row of a padded gradient is made of the row that it was padded from. -/
theorem rowOf_paddedTensor {operand g : Tensor α} {batch : List Nat}
    {rows width padded blocks : Nat} (h : operand.type.HasAxes batch rows width)
    (hpadded : width ≤ padded) {f : Nat → Nat → List α}
    (hf : IsGrid (blocks * rows) width (table blocks rows f))
    (hg : paddedTensor operand padded (table blocks rows f) = .ok g) {b i : Nat}
    (hb : b < blocks) (hi : i < rows) : rowOf g.elements padded (b * rows + i) =
      (padRow padded (f b i)).map (Scalar.narrow operand.type.dtype) := by
  unfold paddedTensor at hg
  rw [h.withLastDim, ok_bind] at hg
  obtain ⟨-, helements, -⟩ := Tensor.of_ofElements_eq_ok hg
  rw [helements, Array.toList_map, rowOf_map]
  have hrow : ((table blocks rows f).map (padRow padded))[b * rows + i]? =
      some (padRow padded (f b i)) := by
    rw [List.getElem?_map, getElem?_table f hb hi, Option.map_some]
  rw [rowOf_flatten (isGrid_padRow hf hpadded) hrow]
  rfl

/-- A row of a gradient is the same if the row that it is padded from is. -/
theorem sameRow_paddedTensor {operand operand' g g' : Tensor α} {batch : List Nat}
    {rows width padded blocks : Nat} (h : operand.type.HasAxes batch rows width)
    (htype : operand.type = operand'.type) (hpadded : width ≤ padded) {f f' : Nat → Nat → List α}
    (hf : IsGrid (blocks * rows) width (table blocks rows f))
    (hf' : IsGrid (blocks * rows) width (table blocks rows f'))
    (hg : paddedTensor operand padded (table blocks rows f) = .ok g)
    (hg' : paddedTensor operand' padded (table blocks rows f') = .ok g') {b i : Nat}
    (hb : b < blocks) (hi : i < rows) (hrow : f b i = f' b i) :
    SameRow padded g g' (b * rows + i) := by
  unfold SameRow
  rw [rowOf_paddedTensor h hpadded hf hg hb hi,
    rowOf_paddedTensor (htype ▸ h) hpadded hf' hg' hb hi, hrow, htype]

/-- Two forward parts on operands of one shape: a row of the output and the logarithm of a query
are the same if the query and the keys that it sees are. -/
theorem forward_isolated {l : Layout} {q k v q' k' v' : Tensor α} (hlayout : layout q k v = .ok l)
    (hlayout' : layout q' k' v' = .ok l) (htype : q.type = q'.type) (blockSize : Nat) (scale : α)
    (causal : Bool) : ∃ r r' : FlashForward α,
      forward blockSize q k v scale causal = .ok r ∧
      forward blockSize q' k' v' scale causal = .ok r' ∧
      ∀ b < l.heads, ∀ i < l.queries, SameRow l.depth q q' (b * l.queries + i) →
        (∀ j < l.keys, Sees causal i j → SameKey l k v k' v' (b * l.keys + j)) →
          SameRow l.valueDepth r.primary r'.primary (b * l.queries + i) ∧
            SameRow 1 r.auxiliary r'.auxiliary (b * l.queries + i) := by
  obtain ⟨-, -, -, outer, inner, hl⟩ := exists_describes hlayout
  obtain ⟨-, -, -, outer', inner', hl'⟩ := exists_describes hlayout'
  obtain ⟨r, hr, -, -, hprimary, hauxiliary⟩ := hl.exists_forward hlayout blockSize scale causal
  obtain ⟨r', hr', -, -, hprimary', hauxiliary'⟩ :=
    hl'.exists_forward hlayout' blockSize scale causal
  refine ⟨r, r', hr, hr', fun b hb i hi hquery hkeys => ?_⟩
  have hrow : attendAt l blockSize (q.asRows l.depth) (k.asRows l.depth) (v.asRows l.valueDepth)
      scale causal b i = attendAt l blockSize (q'.asRows l.depth) (k'.asRows l.depth)
        (v'.asRows l.valueDepth) scale causal b i := by
    unfold attendAt
    rw [hquery.values_eq, seenKeys_congr hkeys]
  constructor
  · unfold SameRow
    rw [hprimary, hprimary', rowOf_map, rowOf_map, map_table, map_table,
      rowOf_table (fun b hb i _ => length_attendAt hl.holds_key hl.holds_value _ _ _ rfl hb i) hb hi,
      rowOf_table (fun b hb i _ => length_attendAt hl'.holds_key hl'.holds_value _ _ _ rfl hb i) hb
        hi, hrow, htype]
  · unfold SameRow
    rw [hauxiliary, hauxiliary', rowOf_map, rowOf_map, rowOf_map, rowOf_map,
      rowOf_one (getElem?_table _ hb hi), rowOf_one (getElem?_table _ hb hi), hrow]

/-- Two backward parts on operands of one shape: a row of the gradient of the queries is the same if
the query and the keys that it sees are, and a row of the gradients of keys and values is the same
if the key and the queries that see it are. -/
theorem backward_isolated {l : Layout} {x x' : FlashBackwardInput α}
    (hlayout : backwardLayout x = .ok l) (hlayout' : backwardLayout x' = .ok l)
    (hq : x.q.type = x'.q.type) (hk : x.k.type = x'.k.type) (hv : x.v.type = x'.v.type)
    (alignment : Nat) (scale : α) (causal : Bool) : ∃ g g' : FlashGradients α,
      backward alignment x scale causal = .ok g ∧ backward alignment x' scale causal = .ok g' ∧
      (∀ b < l.heads, ∀ i < l.queries, SameQuery l x x' (b * l.queries + i) →
        (∀ j < l.keys, Sees causal i j → SameKey l x.k x.v x'.k x'.v (b * l.keys + j)) →
          SameRow (paddedWidth alignment l.depth) g.dq g'.dq (b * l.queries + i)) ∧
      ∀ b < l.heads, ∀ j < l.keys, SameKey l x.k x.v x'.k x'.v (b * l.keys + j) →
        (∀ i < l.queries, Sees causal i j → SameQuery l x x' (b * l.queries + i)) →
          SameRow (paddedWidth alignment l.depth) g.dk g'.dk (b * l.keys + j) ∧
            SameRow (paddedWidth alignment l.valueDepth) g.dv g'.dv (b * l.keys + j) := by
  obtain ⟨-, -, -, outer, inner, hl⟩ := exists_describes (backwardLayout_eq_ok_iff.1 hlayout).1
  obtain ⟨g, hg, hdq, hdk, hdv⟩ := exists_backward hlayout alignment scale causal
  obtain ⟨g', hg', hdq', hdk', hdv'⟩ := exists_backward hlayout' alignment scale causal
  have hr := readable_ofInput hlayout
  have hr' := readable_ofInput hlayout'
  refine ⟨g, g', hg, hg', fun b hb i hi hquery hkeys => ?_, fun b hb j hj hkey hqueries => ⟨?_, ?_⟩⟩
  · exact sameRow_paddedTensor hl.query hq (le_paddedWidth _ _) (hr.isGrid_queryRows _ _)
      (hr'.isGrid_queryRows _ _) hdq hdq' hb hi (BackwardRows.queryRow_congr hquery hkeys)
  · exact sameRow_paddedTensor hl.key hk (le_paddedWidth _ _) (hr.isGrid_keyRows _ _)
      (hr'.isGrid_keyRows _ _) hdk hdk' hb hj (BackwardRows.keyRow_congr hkey hqueries)
  · exact sameRow_paddedTensor hl.value hv (le_paddedWidth _ _) (hr.isGrid_valueRows _ _)
      (hr'.isGrid_valueRows _ _) hdv hdv' hb hj (BackwardRows.valueRow_congr hkey hqueries)

/-- No information leaks across rows, whatever the scalars are. Two runs of the kernel on operands
of one shape return, once their buffers exist, and a row of a result is the same in both if the rows
are that it may depend on: for a query these are the query itself and the keys that it sees, for a
key the key itself and the queries that see it, all of the same head. -/
theorem rows_isolated (config : FlashConfig) (blockSize : Nat) (probe : Bool) (l : Layout)
    (scale : α) (causal : Bool) :
    (∀ q k v q' k' v' : Tensor α, layout q k v = .ok l → layout q' k' v' = .ok l →
      q.type = q'.type → ∃ r r' : FlashForward α,
        (reference config blockSize probe).forward q k v scale causal = (do
          l.reserveForward (max blockSize 1)
          return r) ∧
        (reference config blockSize probe).forward q' k' v' scale causal = (do
          l.reserveForward (max blockSize 1)
          return r') ∧
        ∀ b < l.heads, ∀ i < l.queries, SameRow l.depth q q' (b * l.queries + i) →
          (∀ j < l.keys, Sees causal i j → SameKey l k v k' v' (b * l.keys + j)) →
            SameRow l.valueDepth r.primary r'.primary (b * l.queries + i) ∧
              SameRow 1 r.auxiliary r'.auxiliary (b * l.queries + i)) ∧
    ∀ x x' : FlashBackwardInput α, backwardLayout x = .ok l → backwardLayout x' = .ok l →
      x.q.type = x'.q.type → x.k.type = x'.k.type → x.v.type = x'.v.type →
      ∃ g g' : FlashGradients α,
        (reference config blockSize probe).backward x scale causal = (do
          l.reserveBackward config.headDimAlignment
          return g) ∧
        (reference config blockSize probe).backward x' scale causal = (do
          l.reserveBackward config.headDimAlignment
          return g') ∧
        (∀ b < l.heads, ∀ i < l.queries, SameQuery l x x' (b * l.queries + i) →
          (∀ j < l.keys, Sees causal i j → SameKey l x.k x.v x'.k x'.v (b * l.keys + j)) →
            SameRow (paddedWidth config.headDimAlignment l.depth) g.dq g'.dq
              (b * l.queries + i)) ∧
        ∀ b < l.heads, ∀ j < l.keys, SameKey l x.k x.v x'.k x'.v (b * l.keys + j) →
          (∀ i < l.queries, Sees causal i j → SameQuery l x x' (b * l.queries + i)) →
            SameRow (paddedWidth config.headDimAlignment l.depth) g.dk g'.dk (b * l.keys + j) ∧
              SameRow (paddedWidth config.headDimAlignment l.valueDepth) g.dv g'.dv
                (b * l.keys + j) := by
  constructor
  · intro q k v q' k' v' hlayout hlayout' htype
    obtain ⟨r, r', hr, hr', hrows⟩ :=
      forward_isolated hlayout hlayout' htype (max blockSize 1) scale causal
    refine ⟨r, r', ?_, ?_, hrows⟩
    · simp only [reference, hlayout, ok_bind, hr, pure_eq_ok]
    · simp only [reference, hlayout', ok_bind, hr', pure_eq_ok]
  · intro x x' hlayout hlayout' hq hk hv
    obtain ⟨g, g', hg, hg', hrows⟩ :=
      backward_isolated hlayout hlayout' hq hk hv config.headDimAlignment scale causal
    refine ⟨g, g', ?_, ?_, hrows⟩
    · simp only [reference, hlayout, ok_bind, hg, pure_eq_ok]
    · simp only [reference, hlayout', ok_bind, hg', pure_eq_ok]

/-- One head with two rows of width one. -/
def twoRows (a b : Float32) : Tensor Float32 :=
  Tensor.dense ⟨⟨[1, 1, 2, 1]⟩, .f32, .host⟩ #[a, b] rfl

/-- The logarithms of two queries of one head. -/
def twoLogs (a b : Float32) : Tensor Float32 :=
  Tensor.dense ⟨⟨[1, 1, 2]⟩, .f32, .host⟩ #[a, b] rfl

theorem type_twoRows (a b : Float32) : (twoRows a b).type = ⟨⟨[1, 1, 2, 1]⟩, .f32, .host⟩ := rfl

theorem elements_twoRows (a b : Float32) : (twoRows a b).elements = [a, b] :=
  Tensor.elements_dense ..

theorem elements_twoLogs (a b : Float32) : (twoLogs a b).elements = [a, b] :=
  Tensor.elements_dense ..

theorem sameRow_twoRows_zero (a b b' : Float32) : SameRow 1 (twoRows a b) (twoRows a b') 0 := by
  rw [SameRow, elements_twoRows, elements_twoRows]
  rfl

theorem sameRow_twoRows_one (a a' b : Float32) : SameRow 1 (twoRows a b) (twoRows a' b) 1 := by
  rw [SameRow, elements_twoRows, elements_twoRows]
  rfl

theorem sameRow_twoLogs_one (a a' b : Float32) : SameRow 1 (twoLogs a b) (twoLogs a' b) 1 := by
  rw [SameRow, elements_twoLogs, elements_twoLogs]
  rfl

/-- The gradients of two queries and two keys; what belongs to the first query is a parameter. -/
def twoQueries (dOut q out lse : Float32) : FlashBackwardInput Float32 :=
  ⟨twoRows dOut 1, twoRows q 2, twoRows 3 4, twoRows 5 6, twoRows out 1, twoLogs lse 1⟩

/-- Under a causal mask the first query cannot tell what the second key is, and the gradients of the
second key do not depend on the first query. -/
theorem rows_isolated_causal :
    (∃ r r' : FlashForward Float32,
      (reference .standard 1 true).forward (twoRows 1 2) (twoRows 3 4) (twoRows 5 6) 1 true =
        .ok r ∧
      (reference .standard 1 true).forward (twoRows 1 2) (twoRows 3 7) (twoRows 5 8) 1 true =
        .ok r' ∧ SameRow 1 r.primary r'.primary 0 ∧ SameRow 1 r.auxiliary r'.auxiliary 0) ∧
    ∃ g g' : FlashGradients Float32,
      (reference .standard 1 true).backward (twoQueries 1 2 3 4) 1 true = .ok g ∧
      (reference .standard 1 true).backward (twoQueries 5 6 7 8) 1 true = .ok g' ∧
      SameRow 8 g.dk g'.dk 1 ∧ SameRow 8 g.dv g'.dv 1 := by
  have hisolated := rows_isolated (α := Float32) .standard 1 true ⟨1, 2, 2, 1, 1⟩ 1 true
  obtain ⟨r, r', hr, hr', hrows⟩ := hisolated.1 (twoRows 1 2) (twoRows 3 4) (twoRows 5 6)
    (twoRows 1 2) (twoRows 3 7) (twoRows 5 8) rfl rfl rfl
  obtain ⟨g, g', hg, hg', -, hkeys⟩ := hisolated.2 (twoQueries 1 2 3 4) (twoQueries 5 6 7 8)
    rfl rfl ((type_twoRows ..).trans (type_twoRows ..).symm) rfl rfl
  refine ⟨⟨r, r', hr.trans rfl, hr'.trans rfl, ?_⟩, g, g', hg.trans rfl, hg'.trans rfl, ?_⟩
  · refine hrows 0 (by decide) 0 (by decide) (sameRow_twoRows_zero ..) fun j _ hj => ?_
    obtain rfl : j = 0 := Nat.le_zero.1 (hj rfl)
    exact ⟨sameRow_twoRows_zero .., sameRow_twoRows_zero ..⟩
  · have hkey : SameKey ⟨1, 2, 2, 1, 1⟩ (twoRows 3 4) (twoRows 5 6) (twoRows 3 4) (twoRows 5 6) 1 :=
      ⟨sameRow_twoRows_one .., sameRow_twoRows_one ..⟩
    refine hkeys 0 (by decide) 1 (by decide) hkey fun i hi hsees => ?_
    obtain rfl : i = 1 := Nat.le_antisymm (Nat.lt_succ_iff.1 hi) (hsees rfl)
    exact ⟨sameRow_twoRows_one .., sameRow_twoRows_one .., sameRow_twoRows_one ..,
      sameRow_twoLogs_one ..⟩

end Flash

end TraceSubstitution
