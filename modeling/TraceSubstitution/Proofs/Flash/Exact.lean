import TraceSubstitution.Proofs.Attention.Exact
import TraceSubstitution.Proofs.Flash.Inference
import TraceSubstitution.Proofs.Flash.Online

/-!
# The fused kernel and the reference implementation agree

Read over exact scalars, the fused kernel computes the output of attention that the
reference implementation computes, and the logarithms of the sums of the exponentials
of the scores. Neither depends on the size of the blocks.
-/

namespace TraceSubstitution

namespace Flash

open Attention Extended ExactScalars

/-- The problem of attention with the sizes of a fused call. -/
def Layout.problem {α : Type} (l : Layout) (scale : α) (causal : Bool) (dropout : α)
    (seed : Int64) : Problem α where
  batch := l.heads
  queries := l.queries
  keys := l.keys
  depth := l.depth
  valueDepth := l.valueDepth
  scale := scale
  causal := causal
  dropout := dropout
  seed := seed.toUInt64

/-- The operands of a fused call pose a problem of attention with its sizes. -/
theorem Layout.Describes.ofOperands_eq {α : Type} [Scalar α] {l : Layout} {outer inner : Nat}
    {q k v : Tensor α} (h : l.Describes outer inner q.type k.type v.type)
    {args : Operands (Tensor α)} (hq : args.optional 0 = some q) (hk : args.optional 1 = some k)
    (hv : args.optional 2 = some v) {dropout : Float} {causal : Bool} {scale : Option Float}
    {seed : Int64} (hattrs : Settled args.attrs dropout causal scale seed) :
    Problem.ofOperands args = .ok (l.problem
      (Scalar.ofFloat (scale.getD (1.0 / (Float.ofNat l.depth).sqrt))) causal
      (Scalar.ofFloat dropout) seed) := by
  have hrank : ¬ q.type.rank < 2 := by rw [h.query.rank_eq]; simp
  have hkeys : Require.dim k.type (q.type.rank - 2) = .ok l.keys := by
    rw [h.query.rank_eq, ← h.key.rank_eq]
    exact Require.dim_eq_ok_iff.2 h.key.getElem?_rows
  have hbatch : volume (q.type.dims.take (q.type.rank - 2)) = l.heads := by
    rw [h.query.rank_eq, show q.type.dims = _ from h.query, h.heads]
    simp
  unfold Problem.ofOperands
  rw [Operands.tensor_eq_ok_iff.2 hq, Operands.tensor_eq_ok_iff.2 hk,
    Operands.tensor_eq_ok_iff.2 hv]
  simp only [ok_bind, Require.lastDim_eq_ok_iff.2 h.query.lastDim?, if_neg hrank, hkeys, hbatch,
    Require.dim_eq_ok_iff.2 h.query.getElem?_rows, Require.lastDim_eq_ok_iff.2 h.value.lastDim?,
    hattrs.softmaxScale, hattrs.causal, hattrs.dropout, hattrs.seed]
  rfl

variable {K : Type}

theorem visibleKeys_eq {l : Layout} {q k v : Rows (Extended K)} {x : ExactRows K}
    (h : x.ReadFrom q k v (l.heads * l.queries) (l.heads * l.keys)) {head : Nat}
    (hhead : head < l.heads) (i : Nat) (causal : Bool) :
    visibleKeys l k v head i causal = .ok (((List.range (l.visible i causal)).map fun j =>
      (x.key (head * l.keys + j), x.value (head * l.keys + j))).map fun e =>
        (e.1.map of, e.2.map of)) := by
  rw [List.map_map]
  refine mapM_eq_ok fun j hj => ?_
  have hj : j < l.keys := Nat.lt_of_lt_of_le (List.mem_range.1 hj) (l.visible_le i causal)
  rw [h.key _ (index_lt hhead hj), h.value _ (index_lt hhead hj)]
  rfl

variable [Field K] [LinearOrder K] [ExactScalars K]

/-- The scores and values of the keys that query `i` of a head sees. -/
def Layout.seen (l : Layout) (x : ExactRows K) (c : K) (causal : Bool) (head i : Nat) :
    List (K × List K) :=
  x.seen c (head * l.queries + i) (head * l.keys) (l.visible i causal)

/-- The output rows of all queries, by head. -/
def Layout.meanRows (l : Layout) (x : ExactRows K) (c : K) (causal : Bool) : List (List K) :=
  (List.range l.heads).flatMap fun head =>
    (List.range l.queries).map fun i => meanRow l.valueDepth (l.seen x c causal head i)

/-- The logarithms of all queries, by head. -/
def Layout.logSums (l : Layout) (x : ExactRows K) (c : K) (causal : Bool) : List (Extended K) :=
  (List.range l.heads).flatMap fun head =>
    (List.range l.queries).map fun i => logSum ((l.seen x c causal head i).map (·.1))

theorem Layout.length_logSums (l : Layout) (x : ExactRows K) (c : K) (causal : Bool) :
    (l.logSums x c causal).length = l.heads * l.queries := by
  simp [logSums, List.length_flatMap, List.map_const']

theorem Layout.getElem?_logSums (l : Layout) (x : ExactRows K) (c : K) (causal : Bool)
    {head i : Nat} (hhead : head < l.heads) (hi : i < l.queries) :
    (l.logSums x c causal)[head * l.queries + i]? =
      some (logSum ((l.seen x c causal head i).map (·.1))) :=
  getElem?_flatMap_range (fun head i => logSum ((l.seen x c causal head i).map Prod.fst)) hhead hi

namespace Layout.Describes

variable {l : Layout} {outer inner : Nat} {q k v : Tensor (Extended K)}
  (h : l.Describes outer inner q.type k.type v.type)
include h

/-- The rows of exact attention and its logarithms fill their tensors. -/
theorem exists_results {x : ExactRows K}
    (hx : x.ReadFrom (q.asRows l.depth) (k.asRows l.depth) (v.asRows l.valueDepth)
      (l.heads * l.queries) (l.heads * l.keys)) (c : K) (causal : Bool) :
    ∃ primary auxiliary : Tensor (Extended K),
      Tensor.ofElements (q.type.withShape ⟨[outer, inner] ++ [l.queries, l.valueDepth]⟩)
        ((l.meanRows x c causal).flatten.map of).toArray = .ok primary ∧
      Tensor.ofElements ⟨⟨[outer, inner, l.queries]⟩, .f32, q.type.device⟩
        (l.logSums x c causal).toArray = .ok auxiliary ∧
      auxiliary.type = ⟨⟨[outer, inner, l.queries]⟩, .f32, q.type.device⟩ ∧
      auxiliary.elements = l.logSums x c causal := by
  have hgrid : IsGrid (l.heads * l.queries) l.valueDepth (l.meanRows x c causal) :=
    Problem.isGrid_meanRows (p := l.problem (of c) causal (of 0) 0) hx rfl
  have hprimarySize : ((l.meanRows x c causal).flatten.map of).toArray.size =
      (q.type.withShape ⟨[outer, inner] ++ [l.queries, l.valueDepth]⟩).numElements := by
    rw [List.size_toArray, List.length_map, hgrid.length_flatten, h.outputElements]
  have hauxiliarySize : (l.logSums x c causal).toArray.size =
      (⟨⟨[outer, inner, l.queries]⟩, .f32, q.type.device⟩ : TensorType).numElements := by
    rw [List.size_toArray, l.length_logSums]
    exact h.logElements rfl
  obtain ⟨primary, hprimary, -, -⟩ := Tensor.exists_ofElements hprimarySize
  obtain ⟨auxiliary, hauxiliary, htype, -⟩ := Tensor.exists_ofElements hauxiliarySize
  exact ⟨primary, auxiliary, hprimary, hauxiliary, htype, ExactRows.elements_ofElements hauxiliary⟩

/-- The reference implementation returns the means of exact attention, once its buffers exist. -/
theorem output_eq {args : Operands (Tensor (Extended K))} {x : ExactRows K} {c : K} {causal : Bool}
    {seed : Int64}
    (hposed : (l.problem (of c) causal (of 0) seed).PosedExactly args q k v x c) :
    Problem.output args = (do
      reserve (l.heads * l.queries * l.keys)
      reserve (l.heads * l.queries * l.valueDepth)
      Tensor.ofElements (q.type.withShape ⟨[outer, inner] ++ [l.queries, l.valueDepth]⟩)
        ((l.meanRows x c causal).flatten.map of).toArray) := by
  have htype : Require.withLastDim q.type (l.problem (of c) causal (of 0) seed).valueDepth =
    .ok (q.type.withShape ⟨[outer, inner] ++ [l.queries, l.valueDepth]⟩) := h.query.withLastDim _
  rw [hposed.output_eq, htype]
  rfl

end Layout.Describes

variable [IsStrictOrderedRing K]

/-- Every query attends to the keys that it sees. -/
theorem attendAll_eq {l : Layout} {q k v : Rows (Extended K)} {x : ExactRows K}
    (h : x.ReadFrom q k v (l.heads * l.queries) (l.heads * l.keys)) (blockSize : Nat) (c : K)
    (causal : Bool) : ∃ rows, attendAll l blockSize q k v (of c) causal = .ok rows ∧
      rows.flatten.map (·.1) = (l.meanRows x c causal).map (·.map of) ∧
      rows.flatten.map (·.2) = l.logSums x c causal := by
  have hrows : ∃ rows, attendAll l blockSize q k v (of c) causal = .ok rows ∧
      rows.flatten = (List.range l.heads).flatMap fun head => (List.range l.queries).map fun i =>
        ((meanRow l.valueDepth (l.seen x c causal head i)).map of,
          logSum ((l.seen x c causal head i).map (·.1))) := by
    unfold attendAll
    split
    · next hzero => exact ⟨[], rfl, by simp [hzero]⟩
    · refine ⟨_, mapM_eq_ok fun head hhead => mapM_eq_ok fun i hi => ?_, List.flatMap_def.symm⟩
      have hhead := List.mem_range.1 hhead
      rw [h.query _ (index_lt hhead (List.mem_range.1 hi)), ok_bind, visibleKeys_eq h hhead,
        ok_bind, attend_eq, List.map_map, List.map_map]
      simp only [Layout.seen, ExactRows.seen, List.map_map]
      rfl
  obtain ⟨rows, heq, hflatten⟩ := hrows
  refine ⟨rows, heq, ?_, ?_⟩ <;> rw [hflatten, List.map_flatMap]
  · simp only [Layout.meanRows, List.map_flatMap, List.map_map]
    rfl
  · simp only [Layout.logSums, List.map_map]
    rfl

/-- The fused kernel returns the means and the logarithms of exact attention. -/
theorem Layout.Describes.forward_eq {l : Layout} {outer inner : Nat} {q k v : Tensor (Extended K)}
    (h : l.Describes outer inner q.type k.type v.type) (hlayout : layout q k v = .ok l)
    {x : ExactRows K}
    (hx : x.ReadFrom (q.asRows l.depth) (k.asRows l.depth) (v.asRows l.valueDepth)
      (l.heads * l.queries) (l.heads * l.keys)) (blockSize : Nat) (c : K) (causal : Bool) :
    forward blockSize q k v (of c) causal = (do
      let primary ← Tensor.ofElements
        (q.type.withShape ⟨[outer, inner] ++ [l.queries, l.valueDepth]⟩)
        ((l.meanRows x c causal).flatten.map of).toArray
      let auxiliary ← Tensor.ofElements ⟨⟨[outer, inner, l.queries]⟩, .f32, q.type.device⟩
        (l.logSums x c causal).toArray
      return ⟨primary, auxiliary⟩) := by
  obtain ⟨hq, hk, hv, -⟩ := exists_describes hlayout
  obtain ⟨rows, hrows, hmeans, hlogs⟩ := attendAll_eq hx blockSize c causal
  have hlse : Shape.ofDims? (q.type.dims.take 3) = some ⟨[outer, inner, l.queries]⟩ := by
    rw [show q.type.dims = _ from h.query]
    rfl
  unfold forward
  rw [hlayout, List.map_flatten]
  simp only [ok_bind, Tensor.rows_eq_ok hq, Tensor.rows_eq_ok hk, Tensor.rows_eq_ok hv, hrows,
    h.query.withLastDim, hlse, orPanic_some, hmeans, hlogs]

/-- On operands that hold numbers, and without mask and dropout, the fused kernel and the reference
implementation have the same output, once their buffers exist. The logarithm of a query is that of
the sum of the exponentials of the scores of the keys that it sees. The size of the blocks makes no
difference. -/
theorem forward_eq_attention {q k v : Tensor (Extended K)} {l : Layout} {qs ks vs : List K}
    (hlayout : layout q k v = .ok l) (hq : q.elements = qs.map of) (hk : k.elements = ks.map of)
    (hv : v.elements = vs.map of) {args : Operands (Tensor (Extended K))}
    (hquery : args.optional 0 = some q) (hkey : args.optional 1 = some k)
    (hvalue : args.optional 2 = some v) (hmask : args.optional 3 = none) {causal : Bool}
    {scale : Option Float} {seed : Int64} (hattrs : Settled args.attrs 0 causal scale seed) {c : K}
    (hscale : number (scale.getD (1.0 / (Float.ofNat l.depth).sqrt)) = c) :
    ∃ primary auxiliary : Tensor (Extended K),
      (∀ (config : FlashConfig) (blockSize : Nat) (probe : Bool),
        (reference config blockSize probe).forward q k v (of c) causal = (do
          l.reserveForward (max blockSize 1)
          return ⟨primary, auxiliary⟩)) ∧
      Attention.operator.compute args = (do
        reserve (l.heads * l.queries * l.keys)
        reserve (l.heads * l.queries * l.valueDepth)
        return [primary]) ∧
      auxiliary.type = ⟨⟨q.type.dims.take 3⟩, .f32, q.type.device⟩ ∧
      ∀ head < l.heads, ∀ i < l.queries, auxiliary.elements[head * l.queries + i]? =
        some (logSum ((List.range (l.visible i causal)).map fun j =>
          score c (rowOf qs l.depth (head * l.queries + i))
            (rowOf ks l.depth (head * l.keys + j)))) := by
  obtain ⟨hqDense, hkDense, hvDense, outer, inner, h⟩ := exists_describes hlayout
  have hrows := ExactRows.readFrom_ofElements hq hk hv h.queryElements h.keyElements
    h.valueElements
  generalize hx : ExactRows.ofElements l.depth l.valueDepth qs ks vs = x at hrows
  have hproblem := h.ofOperands_eq hquery hkey hvalue hattrs
  rw [ofFloat_eq, ofFloat_eq, hscale, number_zero] at hproblem
  have hposed : (l.problem (of c) causal (of 0) seed).PosedExactly args q k v x c :=
    ⟨hproblem, hquery, hkey, hvalue, hmask, hqDense, hkDense, hvDense, h.keyElements, hrows, rfl,
      rfl⟩
  obtain ⟨primary, auxiliary, hprimary, hauxiliary, htype, helements⟩ :=
    h.exists_results hrows c causal
  refine ⟨primary, auxiliary, fun config blockSize probe => ?_, ?_, ?_, fun head hhead i hi => ?_⟩
  · simp only [reference, hlayout, ok_bind, h.forward_eq hlayout hrows, hprimary, hauxiliary]
  · change (Problem.output args >>= fun output => pure [output]) = _
    rw [h.output_eq hposed, hprimary]
    simp only [bind_assoc, ok_bind]
  · rw [htype, show q.type.dims = _ from h.query]
    rfl
  · rw [helements, l.getElem?_logSums x c causal hhead hi, ← hx, Layout.seen, ExactRows.seen,
      List.map_map]
    rfl

/-- The real numbers of two rows of width one. -/
noncomputable def pairOf (a b : ℝ) : Tensor (Extended ℝ) :=
  Tensor.dense ⟨⟨[1, 1, 2, 1]⟩, .f32, ⟨.cpu, 0⟩⟩ ([a, b].map of).toArray rfl

theorem elements_pairOf (a b : ℝ) : (pairOf a b).elements = [a, b].map of :=
  (Tensor.elements_dense ..).trans List.toList_toArray

theorem number_one : number 1 = (1 : ℝ) := by
  have hparts : BinaryParts.ofFloat 1 = .finite false 0x10000000000000 (-52) := by rfl
  change (BinaryParts.ofFloat 1).toReal = 1
  rw [hparts]
  norm_num [BinaryParts.toReal]

/-- A call of attention on two queries and two keys, under a causal mask. -/
noncomputable def causalPair : Operands (Tensor (Extended ℝ)) where
  op := "scaled_dot_product_attention"
  tensors := [some (pairOf 0 1), some (pairOf 0 1), some (pairOf 1 0)]
  attrs := AttentionOptions.attrs ⟨0, true, some 1, 0⟩

/-- The second of two queries sees both keys, and its logarithm is that of the sum of the
exponentials of their scores, whatever the size of the blocks. -/
theorem forward_eq_attention_causalPair : ∃ primary auxiliary : Tensor (Extended ℝ),
    (∀ blockSize < bufferBound, (reference .standard blockSize true).forward (pairOf 0 1)
      (pairOf 0 1) (pairOf 1 0) (of 1) true = .ok ⟨primary, auxiliary⟩) ∧
    Attention.operator.compute causalPair = .ok [primary] ∧
    auxiliary.elements[1]? = some (of (Real.log (1 + Real.exp 1))) := by
  obtain ⟨primary, auxiliary, hkernel, hcompute, -, hlogs⟩ :=
    forward_eq_attention (l := ⟨1, 2, 2, 1, 1⟩) rfl (elements_pairOf 0 1) (elements_pairOf 0 1)
      (elements_pairOf 1 0) (rfl : causalPair.optional 0 = _) rfl rfl rfl
      (⟨rfl, rfl, rfl, rfl⟩ : Settled _ 0 true (some 1) 0) number_one
  refine ⟨primary, auxiliary, fun blockSize hblock => ?_, hcompute, ?_⟩
  · have hreserve : reserve (max blockSize 1) = .ok () :=
      reserve_eq_ok_iff.2 (Nat.max_lt.2 ⟨hblock, by decide⟩)
    rw [hkernel]
    unfold Layout.reserveForward
    rw [hreserve]
    rfl
  · refine (hlogs 0 (by decide) 1 (by decide)).trans ?_
    have hscores : [score 1 [1] [0], score 1 [1] [1]] = [0, (1 : ℝ)] := by norm_num [score]
    have hmass : mass [0, (1 : ℝ)] = 1 + Real.exp 1 := by
      change Real.exp 0 + (Real.exp 1 + 0) = _
      rw [Real.exp_zero, add_zero]
    change some (logSum [score 1 [1] [0], score 1 [1] [1]]) = _
    rw [hscores, ← hmass]
    rfl

end Flash

end TraceSubstitution
