import TraceSubstitution.Proofs.Attention.Differential
import TraceSubstitution.Proofs.Attention.Exact

/-!
# The probabilities of exact attention

Without mask and dropout the probability of a key that a query sees is the share of its
exponential in their sum, and that of any other key is zero. The output of a query is
the mean of all values with these weights (`Problem.meanRow_seen`), and a call of the
backward operator works with them (`Problem.PosedExactly.posedInNumbers`).
-/

namespace TraceSubstitution

open Extended ExactScalars

/-- The exact scalars compute with numbers. -/
theorem Extended.isNumbers_of {K : Type} [Field K] [LinearOrder K] [ExactScalars K] :
    IsNumbers (of : K → Extended K) where
  add _ _ := rfl
  sub _ _ := rfl
  mul _ _ := rfl
  zero := rfl
  sumStart := rfl
  one := rfl
  eq_of_same h := Extended.of.inj (of_decide_eq_true h)
  narrow d a := narrow_eq d (of a)

namespace Attention

variable {K : Type}

/-- The rows of numbers have the widths of the operands. -/
structure ExactRows.Sized {α : Type} (x : ExactRows K) (p : Problem α) : Prop where
  query : ∀ r < p.batch * p.queries, (x.query r).length = p.depth
  key : ∀ r < p.batch * p.keys, (x.key r).length = p.depth
  value : ∀ r < p.batch * p.keys, (x.value r).length = p.valueDepth

variable [Field K]

/-- The rows of tensors of numbers have the widths of the operands. -/
theorem ExactRows.sized_ofElements [LinearOrder K] [ExactScalars K] {p : Problem (Extended K)}
    {q k v : Tensor (Extended K)} {qs ks vs : List K} (hq : q.elements = qs.map of)
    (hk : k.elements = ks.map of) (hv : v.elements = vs.map of)
    (hqSize : p.batch * p.queries * p.depth = q.type.numElements)
    (hkSize : p.batch * p.keys * p.depth = k.type.numElements)
    (hvSize : p.batch * p.keys * p.valueDepth = v.type.numElements) :
    (ofElements p.depth p.valueDepth qs ks vs).Sized p where
  query _ hr := (row_asRows hq hqSize hr).2
  key _ hr := (row_asRows hk hkSize hr).2
  value _ hr := (row_asRows hv hvSize hr).2

/-- Adds a multiple of a row of the same width. -/
theorem addMultiple_numberRow {width : Nat} {row : List K} (h : row.length = width) (f : Nat → K)
    (s : K) : addMultiple (numberRow id width f) s row =
      numberRow id width fun col => f col + s * row.getD col 0 := by
  have hrow : row = numberRow id width (row.getD · 0) :=
    (List.map_id row).symm.trans (map_eq_numberRow id h)
  generalize row.getD = entry at hrow ⊢
  subst hrow
  unfold addMultiple numberRow
  rw [zipWith_map_range]
  rfl

variable [LinearOrder K] [ExactScalars K]

namespace Problem

variable (p : Problem (Extended K)) (x : ExactRows K) (c : K) {b : Nat}

/-- The probability of key `j`, for query `i` of batch entry `b`. -/
def exactProbability (b i j : Nat) : K :=
  if j < p.visible i then
    exp (Attention.score c (x.query (b * p.queries + i)) (x.key (b * p.keys + j))) /
      mass ((p.seen x c b i).map (·.1))
  else 0

/-- The numbers of a call of the backward operator without mask and dropout. -/
def exactNumbers (gradient : Nat → List K) : CallNumbers K where
  dOut r col := (gradient r).getD col 0
  query r col := (x.query r).getD col 0
  key r col := (x.key r).getD col 0
  value r col := (x.value r).getD col 0
  probability := p.exactProbability x c
  factor _ _ _ := 1
  scale := c

/-- The values that a query does not see. -/
def hiddenValues (b i : Nat) : List (List K) :=
  (List.range (p.keys - p.visible i)).map fun j => x.value (b * p.keys + (p.visible i + j))

/-- All keys with their probabilities, those that are hidden last. -/
theorem weightedKeys_seen (i : Nat) :
    weightedKeys (p.seen x c b i) (p.hiddenValues x b i) = (List.range p.keys).map fun j =>
      (p.exactProbability x c b i j, x.value (b * p.keys + j)) := by
  unfold weightedKeys hiddenValues
  rw [p.range_keys i, List.map_append, List.map_map, List.map_map]
  congr 1
  · simp only [seen, ExactRows.seen, List.map_map]
    refine List.map_congr_left fun j hj => ?_
    simp only [exactProbability, if_pos (List.mem_range.1 hj)]
    simp [seen, ExactRows.seen]
  · refine List.map_congr_left fun j _ => ?_
    simp [exactProbability]

/-- The softmax of the scores of a query. -/
theorem softmax_seen (i : Nat) : softmax (((p.seen x c b i).map (·.1)).map of ++
    List.replicate (p.keys - p.visible i) lowest) =
      numberRow of p.keys (p.exactProbability x c b i) := by
  have hsoftmax := softmax_eq_weights (p.seen x c b i) (p.hiddenValues x b i)
  rw [p.weightedKeys_seen] at hsoftmax
  unfold hiddenValues at hsoftmax
  rw [List.length_map, List.length_range] at hsoftmax
  exact hsoftmax.trans List.map_map

variable {x}

/-- The mean of the values that a query sees is that of all values, weighted by their
probabilities. -/
theorem meanRow_seen (hx : x.Sized p) (hb : b < p.batch) (i : Nat) :
    meanRow p.valueDepth (p.seen x c b i) = numberRow id p.valueDepth fun col =>
      ∑ j ∈ Finset.range p.keys, p.exactProbability x c b i j *
        (x.value (b * p.keys + j)).getD col 0 := by
  have hlength : ∀ j < p.keys, (x.value (b * p.keys + j)).length = p.valueDepth := fun j hj =>
    hx.value _ (index_lt hb hj)
  have hvalues : (p.seen x c b i).map (·.2) ++ p.hiddenValues x b i =
      (List.range p.keys).map fun j => x.value (b * p.keys + j) := by
    rw [← values_weightedKeys, p.weightedKeys_seen, List.map_map]
    rfl
  have hwidth : ∀ value ∈ (p.seen x c b i).map (·.2) ++ p.hiddenValues x b i,
      value.length = p.valueDepth := by
    rw [hvalues]
    intro value hvalue
    obtain ⟨j, hj, rfl⟩ := List.mem_map.1 hvalue
    exact hlength j (List.mem_range.1 hj)
  have hstart : List.replicate p.valueDepth (0 : K) = numberRow id p.valueDepth fun _ => 0 := by
    simp [numberRow, List.map_const']
  rw [← foldl_weightedKeys hwidth, p.weightedKeys_seen, List.foldl_map, hstart,
    IsNumbers.foldl_rows fun f j hj => addMultiple_numberRow (hlength j hj) f _]
  simp only [zero_add]

variable {p c}

/-- The operands of a call of the backward operator without mask and dropout are numbers. -/
theorem PosedExactly.posedInNumbers {args : Operands (Tensor (Extended K))}
    {d q k v : Tensor (Extended K)} (h : p.PosedExactly (forwardOperands args) q k v x c)
    (hx : x.Sized p) {gradient : Nat → List K} (hincoming : args.optional 0 = some d)
    (hdense : d.isContiguous = true)
    (hsize : p.batch * p.queries * p.valueDepth = d.type.numElements)
    (hgradient : ∀ r < p.batch * p.queries,
      (d.asRows p.valueDepth).row r = .ok ((gradient r).map of))
    (hwidth : ∀ r < p.batch * p.queries, (gradient r).length = p.valueDepth)
    (hquery : p.batch * p.queries * p.depth = q.type.numElements)
    (hvalue : p.batch * p.keys * p.valueDepth = v.type.numElements) :
    p.PosedInNumbers of (p.exactNumbers x c gradient) args d q k v where
  problem := h.problem
  incoming := hincoming
  query := h.query
  key := h.key
  value := h.value
  incomingDense := hdense
  queryDense := h.queryDense
  keyDense := h.keyDense
  valueDense := h.valueDense
  incomingElements := hsize
  queryElements := hquery
  keyElements := h.keyElements
  valueElements := hvalue
  reads := {
    dOut r hr := (hgradient r hr).trans (congrArg _ (map_eq_numberRow of (hwidth r hr)))
    query r hr := (h.rows.query r hr).trans (congrArg _ (map_eq_numberRow of (hx.query r hr)))
    key r hr := (h.rows.key r hr).trans (congrArg _ (map_eq_numberRow of (hx.key r hr)))
    value r hr := (h.rows.value r hr).trans (congrArg _ (map_eq_numberRow of (hx.value r hr)))
    scale := h.scale }
  probabilities := by
    rw [h.probabilities_eq]
    simp only [softmax_seen]
    rfl
  factors := by
    rw [h.dropoutFactors_eq]
    simp [numberStack, numberRow, exactNumbers, isNumbers_of.one, Function.comp_def]

end Problem

end Attention

end TraceSubstitution
