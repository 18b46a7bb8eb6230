import TraceSubstitution.Proofs.Attention.Output
import TraceSubstitution.Proofs.Attention.Softmax
import TraceSubstitution.Proofs.Attention.Tables

/-!
# The reference implementation is exact attention

Where the operands hold numbers, the reference implementation gives every query the
mean of the values that it sees (`Problem.PosedExactly.output_eq`). The keys that it
does not see come after those that it sees; their scores are the lowest value and their
weights zero.
-/

namespace TraceSubstitution

namespace Attention

open Extended ExactScalars

/-- The rows of queries, keys and values that hold numbers. -/
structure ExactRows (K : Type) where
  /-- The queries. -/
  query : Nat → List K
  /-- The keys. -/
  key : Nat → List K
  /-- The values. -/
  value : Nat → List K

variable {K : Type}

namespace ExactRows

/-- The rows of the elements of queries, keys and values. -/
def ofElements (depth valueDepth : Nat) (queries keys values : List K) : ExactRows K :=
  ⟨rowOf queries depth, rowOf keys depth, rowOf values valueDepth⟩

/-- The operands of attention read as these numbers. -/
structure ReadFrom (x : ExactRows K) (q k v : Rows (Extended K)) (queries keys : Nat) : Prop where
  query : ∀ i < queries, q.row i = .ok ((x.query i).map of)
  key : ∀ j < keys, k.row j = .ok ((x.key j).map of)
  value : ∀ j < keys, v.row j = .ok ((x.value j).map of)
  width : ∀ j < keys, (x.value j).length = v.width

/-- A tensor of numbers is read row by row. -/
theorem row_asRows {t : Tensor (Extended K)} {xs : List K} (h : t.elements = xs.map of)
    {count width i : Nat} (hsize : count * width = t.type.numElements) (hi : i < count) :
    (t.asRows width).row i = .ok ((rowOf xs width i).map of) ∧ (rowOf xs width i).length = width := by
  have hholds : (t.asRows width).Holds count := Tensor.holds_asRows hsize
  have hvalues : (t.asRows width).values i = (rowOf xs width i).map of := by
    rw [values_asRows, h, rowOf_map]
  have hlength := hholds.length_values hi
  rw [hvalues, List.length_map] at hlength
  exact ⟨hvalues ▸ hholds.row_eq_ok hi, hlength⟩

/-- A tensor of exact scalars holds what it is made of. -/
theorem elements_ofElements [Field K] [LinearOrder K] [ExactScalars K] {type : TensorType}
    {xs : List (Extended K)} {t : Tensor (Extended K)}
    (h : Tensor.ofElements type xs.toArray = .ok t) : t.elements = xs := by
  have hnarrow : (Scalar.narrow type.dtype : Extended K → Extended K) = id :=
    funext (narrow_eq type.dtype)
  rw [(Tensor.of_ofElements_eq_ok h).2.1, hnarrow, Array.map_id, List.toList_toArray]

/-- Tensors of numbers read as the rows of these numbers. -/
theorem readFrom_ofElements {q k v : Tensor (Extended K)} {qs ks vs : List K}
    (hq : q.elements = qs.map of) (hk : k.elements = ks.map of) (hv : v.elements = vs.map of)
    {queries keys depth valueDepth : Nat} (hqSize : queries * depth = q.type.numElements)
    (hkSize : keys * depth = k.type.numElements) (hvSize : keys * valueDepth = v.type.numElements) :
    (ofElements depth valueDepth qs ks vs).ReadFrom (q.asRows depth) (k.asRows depth)
      (v.asRows valueDepth) queries keys where
  query _ hi := (row_asRows hq hqSize hi).1
  key _ hj := (row_asRows hk hkSize hj).1
  value _ hj := (row_asRows hv hvSize hj).1
  width _ hj := (row_asRows hv hvSize hj).2

variable [Field K] [LinearOrder K] [ExactScalars K]

/-- The scores and values of `count` keys from `first` on, as a query sees them. -/
def seen (x : ExactRows K) (c : K) (query first count : Nat) : List (K × List K) :=
  (List.range count).map fun j =>
    (score c (x.query query) (x.key (first + j)), x.value (first + j))

end ExactRows

variable [Field K] [LinearOrder K] [ExactScalars K]

namespace Problem

variable {p : Problem (Extended K)} {q k v : Rows (Extended K)} {x : ExactRows K} {c : K}
  {b i : Nat}

/-- How many keys query `i` sees. -/
def visible {α : Type} (p : Problem α) (i : Nat) : Nat :=
  if p.causal then min (i + 1) p.keys else p.keys

theorem visible_le {α : Type} (p : Problem α) (i : Nat) : p.visible i ≤ p.keys := by
  unfold visible
  split
  · exact Nat.min_le_right _ _
  · exact Nat.le_refl _

/-- A causal mask hides the keys after those that a query sees. -/
theorem hidden_iff {α : Type} (p : Problem α) {j : Nat} (hj : j < p.keys) :
    (p.causal && decide (i < j)) = true ↔ p.visible i ≤ j := by
  unfold visible
  cases p.causal with
  | false => simpa using hj
  | true =>
    simp only [Bool.true_and, decide_eq_true_iff, if_true]
    omega

/-- The keys that a query sees, and then those that it does not see. -/
theorem range_keys {α : Type} (p : Problem α) (i : Nat) : List.range p.keys =
    List.range (p.visible i) ++ (List.range (p.keys - p.visible i)).map (p.visible i + ·) := by
  rw [← List.range_add, Nat.add_sub_cancel' (p.visible_le i)]

/-- The scores and values of the keys that query `i` of batch entry `b` sees. -/
def seen (p : Problem (Extended K)) (x : ExactRows K) (c : K) (b i : Nat) : List (K × List K) :=
  x.seen c (b * p.queries + i) (b * p.keys) (p.visible i)

section

variable (h : x.ReadFrom q k v (p.batch * p.queries) (p.batch * p.keys)) (hscale : p.scale = of c)
include h hscale

/-- The scores of a query are those of the keys that it sees; the others are hidden. -/
theorem probabilityRow_eq (hb : b < p.batch) (hi : i < p.queries) :
    p.probabilityRow q k none b i = .ok (softmax (((p.seen x c b i).map (·.1)).map of ++
      List.replicate (p.keys - p.visible i) lowest)) := by
  have hscore : ∀ j ∈ List.range p.keys,
      p.score k none b i ((x.query (b * p.queries + i)).map of) j =
        .ok (if p.visible i ≤ j then lowest
          else of (Attention.score c (x.query (b * p.queries + i)) (x.key (b * p.keys + j)))) := by
    intro j hj
    have hj := List.mem_range.1 hj
    unfold Problem.score
    simp only [p.hidden_iff hj]
    split
    · rfl
    · simp [h.key _ (index_lt hb hj), dot_of, hscale, Attention.score, mul_comm]
  have hscores : (List.range p.keys).map (fun j => if p.visible i ≤ j then lowest
      else of (Attention.score c (x.query (b * p.queries + i)) (x.key (b * p.keys + j)))) =
      ((p.seen x c b i).map (·.1)).map of ++ List.replicate (p.keys - p.visible i) lowest := by
    rw [p.range_keys i, List.map_append]
    congr 1
    · simp only [seen, ExactRows.seen, List.map_map]
      refine List.map_congr_left fun j hj => ?_
      rw [if_neg (Nat.not_le.2 (List.mem_range.1 hj))]
      rfl
    · rw [List.map_map, List.eq_replicate_iff]
      simp
  unfold probabilityRow
  rw [h.query _ (index_lt hb hi), ok_bind, mapM_eq_ok hscore, hscores]
  rfl

end

/-- The output row of a query is the mean of the values that it sees, weighted by the exponentials
of their scores. -/
theorem outputRow_probabilities
    (h : x.ReadFrom q k v (p.batch * p.queries) (p.batch * p.keys)) (hwidth : v.width = p.valueDepth)
    (hb : b < p.batch) (i : Nat) :
    p.outputRow v b (softmax (((p.seen x c b i).map (·.1)).map of ++
      List.replicate (p.keys - p.visible i) lowest)) =
      .ok ((meanRow p.valueDepth (p.seen x c b i)).map of) := by
  have hvalues : (p.seen x c b i).map (·.2) ++ (List.range (p.keys - p.visible i)).map
      (fun j => x.value (b * p.keys + (p.visible i + j))) =
      (List.range p.keys).map fun j => x.value (b * p.keys + j) := by
    rw [p.range_keys i, List.map_append, List.map_map]
    simp [seen, ExactRows.seen, Function.comp_def]
  have hrow := outputRow_softmax (p := p) (v := v) (b := b) (p.seen x c b i)
    ((List.range (p.keys - p.visible i)).map fun j => x.value (b * p.keys + (p.visible i + j)))
    fun j value hvalue => by
      rw [hvalues, List.getElem?_map, Option.map_eq_some_iff] at hvalue
      obtain ⟨j', hj', rfl⟩ := hvalue
      obtain ⟨hj, rfl⟩ := List.getElem?_eq_some_iff.1 hj'
      rw [List.length_range] at hj
      rw [List.getElem_range]
      exact ⟨h.value _ (index_lt hb hj), (h.width _ (index_lt hb hj)).trans hwidth⟩
  rwa [List.length_map, List.length_range] at hrow

/-- The output rows of all queries, by batch entry. -/
def meanRows (p : Problem (Extended K)) (x : ExactRows K) (c : K) : List (List K) :=
  (List.range p.batch).flatMap fun b =>
    (List.range p.queries).map fun i => meanRow p.valueDepth (p.seen x c b i)

theorem isGrid_meanRows (h : x.ReadFrom q k v (p.batch * p.queries) (p.batch * p.keys))
    (hwidth : v.width = p.valueDepth) :
    IsGrid (p.batch * p.queries) p.valueDepth (p.meanRows x c) := by
  refine IsStack.flatten ⟨by simp, fun entry hentry => ?_⟩
  obtain ⟨b, hb, rfl⟩ := List.mem_map.1 hentry
  refine ⟨by simp, fun row hrow => ?_⟩
  obtain ⟨i, -, rfl⟩ := List.mem_map.1 hrow
  refine length_meanRow fun e he => ?_
  obtain ⟨j, hj, rfl⟩ := List.mem_map.1 he
  have hj : j < p.keys := Nat.lt_of_lt_of_le (List.mem_range.1 hj) (p.visible_le i)
  exact (h.width _ (index_lt (List.mem_range.1 hb) hj)).trans hwidth

/-- The operands of a call without mask and dropout pose a problem, lie in one piece each, and hold
numbers. -/
structure PosedExactly (p : Problem (Extended K)) (args : Operands (Tensor (Extended K)))
    (q k v : Tensor (Extended K)) (x : ExactRows K) (c : K) : Prop where
  problem : ofOperands args = .ok p
  query : args.optional 0 = some q
  key : args.optional 1 = some k
  value : args.optional 2 = some v
  mask : args.optional 3 = none
  queryDense : q.isContiguous = true
  keyDense : k.isContiguous = true
  valueDense : v.isContiguous = true
  keyElements : p.batch * p.keys * p.depth = k.type.numElements
  rows : x.ReadFrom (q.asRows p.depth) (k.asRows p.depth) (v.asRows p.valueDepth)
    (p.batch * p.queries) (p.batch * p.keys)
  scale : p.scale = of c
  dropout : p.dropout = of 0

namespace PosedExactly

variable {args : Operands (Tensor (Extended K))} {q k v : Tensor (Extended K)}
  (h : p.PosedExactly args q k v x c)
include h

theorem probabilities_eq : p.probabilities args =
    .ok ((List.range p.batch).map fun b => (List.range p.queries).map fun i =>
      softmax (((p.seen x c b i).map (·.1)).map of ++
        List.replicate (p.keys - p.visible i) lowest)) := by
  have hmask : maskValues args = .ok none := by
    unfold maskValues
    rw [Operands.tensor_eq_ok_iff.2 h.query, Operands.tensor_eq_ok_iff.2 h.key, h.mask]
    rfl
  unfold probabilities
  rw [Operands.tensor_eq_ok_iff.2 h.query, Operands.tensor_eq_ok_iff.2 h.key, hmask]
  simp only [ok_bind, Tensor.rows_eq_ok h.queryDense, Tensor.rows_eq_ok h.keyDense]
  exact mapM_eq_ok fun b hb => mapM_eq_ok fun i hi =>
    probabilityRow_eq h.rows h.scale (List.mem_range.1 hb) (List.mem_range.1 hi)

theorem dropoutFactors_eq : p.dropoutFactors = none := by
  unfold dropoutFactors
  rw [h.dropout, zero_eq, same_self]
  rfl

theorem applyDropout_eq (probabilities : List (List (List (Extended K)))) :
    p.applyDropout probabilities = probabilities := by
  unfold applyDropout
  rw [h.dropoutFactors_eq]

/-- The output holds the rows of exact attention. -/
theorem forward_eq : forward args = (do
    let type ← Require.withLastDim q.type p.valueDepth
    Tensor.ofElements type ((p.meanRows x c).flatten.map of).toArray) := by
  have hrows : p.outputRows (v.asRows p.valueDepth) ((List.range p.batch).map fun b =>
      (List.range p.queries).map fun i => softmax (((p.seen x c b i).map (·.1)).map of ++
        List.replicate (p.keys - p.visible i) lowest)) = .ok ((List.range p.batch).map fun b =>
          (List.range p.queries).map fun i => (meanRow p.valueDepth (p.seen x c b i)).map of) := by
    unfold outputRows
    rw [zipIdx_map_range, List.mapM_map]
    refine mapM_eq_ok fun b hb => ?_
    simp only [Function.comp_apply, List.mapM_map]
    exact mapM_eq_ok fun i _ => outputRow_probabilities h.rows rfl (List.mem_range.1 hb) i
  have hflatten : ((List.range p.batch).map fun b => (List.range p.queries).map fun i =>
      (meanRow p.valueDepth (p.seen x c b i)).map of).flatten = (p.meanRows x c).map (·.map of) := by
    simp [meanRows, List.flatMap, List.map_flatten, Function.comp_def]
  unfold forward
  rw [h.problem, ok_bind, h.probabilities_eq, Operands.tensor_eq_ok_iff.2 h.query,
    Operands.tensor_eq_ok_iff.2 h.value]
  simp only [ok_bind, h.applyDropout_eq, Tensor.rows_eq_ok h.valueDense, hrows, hflatten,
    List.map_flatten]

theorem checkProbabilities_eq :
    p.checkProbabilities args = reserve (p.batch * p.queries * p.keys) := by
  have hmask : checkMask args = .ok () := by
    unfold checkMask
    rw [Operands.tensor_eq_ok_iff.2 h.query, Operands.tensor_eq_ok_iff.2 h.key, h.mask]
    rfl
  have hreach : (k.asRows p.depth).reach p.keyRows = .ok () :=
    Rows.reach_of_holds ((Tensor.holds_asRows h.keyElements).mono p.keyRows_le)
  unfold checkProbabilities
  rw [hmask, Operands.tensor_eq_ok_iff.2 h.key]
  simp only [ok_bind, Tensor.rows_eq_ok h.keyDense, hreach]
  cases reserve (p.batch * p.queries * p.keys) <;> rfl

/-- The reference implementation computes exact attention, once its buffers exist. -/
theorem output_eq : output args = (do
    reserve (p.batch * p.queries * p.keys)
    reserve p.outputSize
    let type ← Require.withLastDim q.type p.valueDepth
    Tensor.ofElements type ((p.meanRows x c).flatten.map of).toArray) := by
  unfold output checkOutput
  rw [h.problem, ok_bind, h.checkProbabilities_eq, bind_assoc]
  split
  · next hzero =>
    have hempty : (p.meanRows x c).flatten = [] := by
      refine List.eq_nil_of_length_eq_zero ?_
      rw [(isGrid_meanRows h.rows rfl).length_flatten]
      exact hzero
    rw [Operands.tensor_eq_ok_iff.2 h.query]
    simp only [ok_bind, Tensor.filled_eq, hempty]
    rfl
  · rw [h.forward_eq]

end PosedExactly

end Problem

end Attention

end TraceSubstitution
