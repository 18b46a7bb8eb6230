import Mathlib.Algebra.BigOperators.Group.Finset.Sigma
import TraceSubstitution.Proofs.Attention.Gradients
import TraceSubstitution.Proofs.Attention.Tables
import TraceSubstitution.Proofs.Scalar.Numbers

/-!
# The gradients of attention in closed form

Where operands, probabilities and dropout factors are numbers, the gradients that the
backward operator accumulates are sums over all keys or all queries
(`Problem.PosedInNumbers.exists_gradients`). Terms of zero are left out by the program
and make no difference; nor does it make a difference that gradients are not computed
where they vanish.
-/

namespace TraceSubstitution

namespace Attention

/-- Weighted products of rows, gathered by column. -/
theorem sum_mul_sum_comm {R : Type} [CommRing R] (n width : Nat) (s : Nat → R)
    (f : Nat → Nat → R) (e : Nat → R) :
    ∑ j ∈ Finset.range n, s j * ∑ c ∈ Finset.range width, f j c * e c =
      ∑ c ∈ Finset.range width, (∑ j ∈ Finset.range n, s j * f j c) * e c := by
  simp only [Finset.mul_sum, Finset.sum_mul]
  rw [Finset.sum_comm]
  exact Finset.sum_congr rfl fun c _ => Finset.sum_congr rfl fun j _ => (mul_assoc _ _ _).symm

/-- The numbers that the backward operator works with: its operands by row and column, the
probabilities and the dropout factors by batch entry, query and key, and the scale. -/
structure CallNumbers (R : Type) where
  /-- The gradient of the output. -/
  dOut : Nat → Nat → R
  /-- The queries. -/
  query : Nat → Nat → R
  /-- The keys. -/
  key : Nat → Nat → R
  /-- The values. -/
  value : Nat → Nat → R
  /-- The probabilities. -/
  probability : Nat → Nat → Nat → R
  /-- The dropout factors. -/
  factor : Nat → Nat → Nat → R
  /-- The scale. -/
  scale : R

namespace CallNumbers

variable {R α : Type} [CommRing R] (x : CallNumbers R) (p : Problem α) (b : Nat)

/-- The gradient of a probability. -/
def weightGradient (i j : Nat) : R :=
  (∑ c ∈ Finset.range p.valueDepth,
    x.dOut (b * p.queries + i) c * x.value (b * p.keys + j) c) * x.factor b i j

/-- The gradient of a score. -/
def scoreGradient (i j : Nat) : R :=
  x.probability b i j * (x.weightGradient p b i j -
    ∑ l ∈ Finset.range p.keys, x.probability b i l * x.weightGradient p b i l) * x.scale

/-- An entry of the gradient of a query. -/
def queryGradient (i c : Nat) : R :=
  ∑ j ∈ Finset.range p.keys, x.scoreGradient p b i j * x.key (b * p.keys + j) c

/-- An entry of the gradient of a key. -/
def keyGradient (j c : Nat) : R :=
  ∑ i ∈ Finset.range p.queries, x.scoreGradient p b i j * x.query (b * p.queries + i) c

/-- An entry of the gradient of a value. -/
def valueGradient (j c : Nat) : R :=
  ∑ i ∈ Finset.range p.queries,
    x.probability b i j * x.factor b i j * x.dOut (b * p.queries + i) c

end CallNumbers

/-- The rows of numbers for all positions of all blocks. -/
def numberTable {R α : Type} (of : R → α) (blocks n width : Nat) (f : Nat → Nat → Nat → R) :
    List (List α) :=
  table blocks n fun b i => numberRow of width (f b i)

theorem isGrid_numberTable {R α : Type} (of : R → α) (blocks n width : Nat)
    (f : Nat → Nat → Nat → R) :
    IsGrid (blocks * n) width (numberTable of blocks n width f) :=
  isGrid_table fun _ _ _ _ => length_numberRow of _

/-- An element of rows of numbers. -/
theorem exists_of_mem_numberTable {R α : Type} {of : R → α} {blocks n width : Nat}
    {f : Nat → Nat → Nat → R} {y : α} (hy : y ∈ (numberTable of blocks n width f).flatten) :
    ∃ b < blocks, ∃ i < n, ∃ c < width, y = of (f b i c) := by
  obtain ⟨row, hrow, hy⟩ := List.mem_flatten.1 hy
  obtain ⟨b, hb, hrow⟩ := List.mem_flatMap.1 hrow
  obtain ⟨i, hi, rfl⟩ := List.mem_map.1 hrow
  obtain ⟨c, hc, rfl⟩ := List.mem_map.1 hy
  exact ⟨b, List.mem_range.1 hb, i, List.mem_range.1 hi, c, List.mem_range.1 hc, rfl⟩

/-- The numbers for every batch entry, query and key. -/
def numberStack {R α β : Type} (of : R → α) (p : Problem β) (f : Nat → Nat → Nat → R) :
    List (List (List α)) :=
  (List.range p.batch).map fun b => (List.range p.queries).map fun i => numberRow of p.keys (f b i)

namespace Problem

variable {R α : Type} [CommRing R] [Scalar α] {of : R → α} {p : Problem α} {dOut q k v : Rows α}

/-- The operands of the backward operator read as these numbers. -/
structure Reads (p : Problem α) (of : R → α) (x : CallNumbers R) (dOut q k v : Rows α) : Prop where
  dOut : ∀ r < p.batch * p.queries, dOut.row r = .ok (numberRow of p.valueDepth (x.dOut r))
  query : ∀ r < p.batch * p.queries, q.row r = .ok (numberRow of p.depth (x.query r))
  key : ∀ r < p.batch * p.keys, k.row r = .ok (numberRow of p.depth (x.key r))
  value : ∀ r < p.batch * p.keys, v.row r = .ok (numberRow of p.valueDepth (x.value r))
  scale : p.scale = of x.scale

/-- What the gradients need of one query, in numbers. -/
def numberTerms (of : R → α) (p : Problem α) (x : CallNumbers R) (b i : Nat) : QueryGradient α where
  query := numberRow of p.depth (x.query (b * p.queries + i))
  output := numberRow of p.valueDepth (x.dOut (b * p.queries + i))
  weights := (numberRow of p.keys fun j => x.probability b i j * x.factor b i j).toArray
  scores := (numberRow of p.keys (x.scoreGradient p b i)).toArray

variable {x : CallNumbers R} (hof : IsNumbers of) {b : Nat} (hb : b < p.batch)

include hof in
theorem weightGradient_eq {width : Nat} (f g : Nat → R) :
    weightGradient (numberRow of width f) (numberRow of width g) =
      of (∑ c ∈ Finset.range width, f c * g c) := by
  unfold weightGradient numberRow
  rw [zipWith_map_range, hof.zero]
  simp only [hof.mul]
  rw [hof.foldl_add, zero_add]

include hof in
theorem scoreGradients_eq {n : Nat} (scale : R) (f g : Nat → R) :
    scoreGradients (of scale) (numberRow of n f) (numberRow of n g) =
      numberRow of n fun j => f j * (g j - ∑ l ∈ Finset.range n, f l * g l) * scale := by
  unfold scoreGradients
  rw [hof.dot_eq]
  unfold numberRow
  rw [zipWith_map_range]
  simp only [hof.sub, hof.mul]

section

variable (h : p.Reads of x dOut q k v)
include hof hb h

/-- The gradients of the probabilities of a query. -/
theorem weightGradients_eq (i : Nat) :
    (numberRow of p.keys (x.factor b i)).zipIdx.mapM (fun (f, j) => do
      return weightGradient (numberRow of p.valueDepth (x.dOut (b * p.queries + i)))
        (← v.row (b * p.keys + j)) * f) =
          .ok (numberRow of p.keys (x.weightGradient p b i)) := by
  unfold numberRow
  rw [zipIdx_map_range, List.mapM_map]
  refine mapM_eq_ok fun j hj => ?_
  have hvalue := h.value _ (index_lt hb (List.mem_range.1 hj))
  simp only [Function.comp_apply, hvalue, ok_bind]
  change (.ok (weightGradient (numberRow of p.valueDepth (x.dOut (b * p.queries + i)))
    (numberRow of p.valueDepth (x.value (b * p.keys + j))) * of (x.factor b i j)) :
      Except Failure α) = _
  rw [weightGradient_eq hof, hof.mul]
  rfl

theorem queryGradient_eq {i : Nat} (hi : i < p.queries) :
    p.queryGradient dOut q v b i (numberRow of p.keys (x.probability b i))
      (numberRow of p.keys (x.factor b i)) = .ok (numberTerms of p x b i) := by
  unfold queryGradient
  rw [h.dOut _ (index_lt hb hi), ok_bind, weightGradients_eq hof hb h i, ok_bind,
    h.query _ (index_lt hb hi), ok_bind, h.scale, scoreGradients_eq hof]
  unfold numberRow
  rw [zipWith_map_range]
  simp only [hof.mul]
  rfl

theorem gatherKeys_eq (i : Nat) : p.gatherKeys k b (numberTerms of p x b i) =
    .ok (numberRow of p.depth (x.queryGradient p b i)) := by
  have hstep : ∀ acc, ∀ j ∈ List.range p.keys,
      (if Scalar.same (of (x.scoreGradient p b i j)) Scalar.zero then return acc
        else return Scalar.addScaled acc (of (x.scoreGradient p b i j)) (← k.row (b * p.keys + j)) :
          Except Failure (List α)) =
      .ok (if Scalar.same (of (x.scoreGradient p b i j)) Scalar.zero then acc
        else Scalar.addScaled acc (of (x.scoreGradient p b i j))
          (numberRow of p.depth (x.key (b * p.keys + j)))) := by
    intro acc j hj
    rw [h.key _ (index_lt hb (List.mem_range.1 hj))]
    split <;> rfl
  unfold gatherKeys numberTerms zeroRow
  rw [List.toList_toArray, numberRow, zipIdx_map_range, List.foldlM_map, hof.replicate_zero]
  refine (foldlM_eq_ok hstep _).trans (congrArg _ ?_)
  rw [IsNumbers.foldl_rows fun f j _ => hof.skip_eq f _ _]
  simp only [zero_add]
  rfl

end

include hof in
theorem gatherQueries_eq (x : CallNumbers R) (b : Nat) {j : Nat} (hj : j < p.keys) :
    p.gatherQueries ((List.range p.queries).map (numberTerms of p x b)) j =
      numberRow of p.depth (x.keyGradient p b j) := by
  have hstep : ∀ f, ∀ i < p.queries, (fun acc i =>
      let s := (numberTerms of p x b i).scores.getD j Scalar.zero
      if Scalar.same s Scalar.zero then acc
      else Scalar.addScaled acc s (numberTerms of p x b i).query) (numberRow of p.depth f) i =
        numberRow of p.depth fun c => f c + x.scoreGradient p b i j *
          x.query (b * p.queries + i) c := by
    intro f i _
    have hscore : (numberTerms of p x b i).scores.getD j Scalar.zero =
        of (x.scoreGradient p b i j) := by
      simp [numberTerms, numberRow, hj]
    simp only [hscore]
    exact hof.skip_eq f _ _
  unfold gatherQueries zeroRow
  rw [List.foldl_map, hof.replicate_zero, IsNumbers.foldl_rows hstep]
  simp only [zero_add]
  rfl

include hof in
theorem gatherOutputs_eq (x : CallNumbers R) (b : Nat) {j : Nat} (hj : j < p.keys) :
    p.gatherOutputs ((List.range p.queries).map (numberTerms of p x b)) j =
      numberRow of p.valueDepth (x.valueGradient p b j) := by
  have hstep : ∀ f, ∀ i < p.queries, (fun acc i =>
      Scalar.addScaled acc ((numberTerms of p x b i).weights.getD j Scalar.zero)
        (numberTerms of p x b i).output) (numberRow of p.valueDepth f) i =
        numberRow of p.valueDepth fun c => f c + x.probability b i j * x.factor b i j *
          x.dOut (b * p.queries + i) c := by
    intro f i _
    have hweight : (numberTerms of p x b i).weights.getD j Scalar.zero =
        of (x.probability b i j * x.factor b i j) := by
      simp [numberTerms, numberRow, hj]
    simp only [hweight]
    exact hof.addScaled_eq f _ _
  unfold gatherOutputs zeroRow
  rw [List.foldl_map, hof.replicate_zero, IsNumbers.foldl_rows hstep]
  simp only [zero_add]
  rfl

omit [Scalar α] in
/-- What is gathered for every key of every batch entry. -/
theorem flatten_gather {γ : Type} {batch n : Nat} {entry : Nat → γ} {gather : γ → Nat → List α}
    {row : Nat → Nat → List α} (h : ∀ b, ∀ j < n, gather (entry b) j = row b j) :
    (((List.range batch).map entry).map fun e => (List.range n).map (gather e)).flatten =
      table batch n row := by
  rw [List.map_map, ← List.flatMap_def]
  exact table_congr fun b _ j hj => h b j hj

/-- What the gradients need of all queries. -/
theorem queryGradients_eq (hof : IsNumbers of) (h : p.Reads of x dOut q k v) :
    ((numberStack of p x.probability).zip (numberStack of p x.factor)).zipIdx.mapM
      (fun ((ps, fs), b) => (ps.zip fs).zipIdx.mapM fun ((ps, fs), i) =>
        p.queryGradient dOut q v b i ps fs) = .ok ((List.range p.batch).map fun b =>
          (List.range p.queries).map (numberTerms of p x b)) := by
  unfold numberStack
  rw [List.zip_map', zipIdx_map_range, List.mapM_map]
  refine mapM_eq_ok fun b hb => ?_
  simp only [Function.comp_apply, List.zip_map', zipIdx_map_range, List.mapM_map]
  exact mapM_eq_ok fun i hi =>
    queryGradient_eq hof (List.mem_range.1 hb) h (List.mem_range.1 hi)

/-- The gradients of all queries. -/
theorem queryRows_eq (hof : IsNumbers of) (h : p.Reads of x dOut q k v) :
    ((List.range p.batch).map fun b =>
      (List.range p.queries).map (numberTerms of p x b)).zipIdx.mapM
        (fun (entry, b) => entry.mapM (p.gatherKeys k b)) = .ok ((List.range p.batch).map fun b =>
          (List.range p.queries).map fun i => numberRow of p.depth (x.queryGradient p b i)) := by
  rw [zipIdx_map_range, List.mapM_map]
  refine mapM_eq_ok fun b hb => ?_
  simp only [Function.comp_apply, List.mapM_map]
  exact mapM_eq_ok fun i _ => gatherKeys_eq hof (List.mem_range.1 hb) h i

/-- The gradients of all rows, in numbers. -/
theorem gradients_eq (hof : IsNumbers of) (h : p.Reads of x dOut q k v)
    {factors : Option (List (List (List α)))}
    (hfactors : factors.getD ((numberStack of p x.probability).map
      (·.map (·.map fun _ => Scalar.one))) = numberStack of p x.factor) :
    ∃ g, p.gradients dOut q k v (numberStack of p x.probability) factors = .ok g ∧
      g.queries.flatten = numberTable of p.batch p.queries p.depth (x.queryGradient p) ∧
      g.keys.flatten = numberTable of p.batch p.keys p.depth (x.keyGradient p) ∧
      g.values.flatten = numberTable of p.batch p.keys p.valueDepth (x.valueGradient p) := by
  unfold gradients
  simp only [hfactors, queryGradients_eq hof h, ok_bind, queryRows_eq hof h]
  exact ⟨_, rfl, List.flatMap_def.symm, flatten_gather fun b j hj => gatherQueries_eq hof x b hj,
    flatten_gather fun b j hj => gatherOutputs_eq hof x b hj⟩

/-- Panics unless the buffers of the gradients, and of the scores of one query, can exist. -/
def reserveGradients (p : Problem α) : Except Failure Unit := do
  reserve (p.batch * p.queries * p.depth)
  reserve (p.batch * p.keys * p.depth)
  reserve (p.batch * p.keys * p.valueDepth)
  reserve p.keys

omit [Scalar α] in
/-- The gradients that are not computed row by row are zero. -/
theorem vanish_eq (x : CallNumbers R) (hvanish : p.gradientsVanish = true) :
    (∀ b < p.batch, ∀ i < p.queries, ∀ c < p.depth, x.queryGradient p b i c = 0) ∧
    (∀ b < p.batch, ∀ j < p.keys, ∀ c < p.depth, x.keyGradient p b j c = 0) ∧
    ∀ b < p.batch, ∀ j < p.keys, ∀ c < p.valueDepth, x.valueGradient p b j c = 0 := by
  have hpos : ∀ {m n i j : Nat}, i < m → j < n → m * n ≠ 0 := fun hi hj =>
    (Nat.mul_pos (Nat.zero_lt_of_lt hi) (Nat.zero_lt_of_lt hj)).ne'
  unfold gradientsVanish at hvanish
  rw [Bool.or_eq_true, decide_eq_true_iff, decide_eq_true_iff] at hvanish
  obtain hnone | hempty := hvanish
  · -- Without queries, the sums over all queries are empty.
    have hqueries : ∀ b < p.batch, p.queries = 0 := fun b hb =>
      (Nat.mul_eq_zero.1 hnone).resolve_left (Nat.zero_lt_of_lt hb).ne'
    refine ⟨fun b hb i hi => absurd hnone (hpos hb hi), fun b hb j _ c _ => ?_,
      fun b hb j _ c _ => ?_⟩
    · simp [CallNumbers.keyGradient, hqueries b hb]
    · simp [CallNumbers.valueGradient, hqueries b hb]
  · obtain ⟨⟨hquery, hkey⟩, hvalue⟩ := by simpa only [Nat.add_eq_zero_iff] using hempty
    exact ⟨fun b _ i hi c hc => absurd hquery (hpos hi hc),
      fun b _ j hj c hc => absurd hkey (hpos hj hc),
      fun b _ j hj c hc => absurd hvalue (hpos hj hc)⟩

/-- A call of the backward operator whose operands lie in one piece each and hold numbers. -/
structure PosedInNumbers (p : Problem α) (of : R → α) (x : CallNumbers R)
    (args : Operands (Tensor α)) (d q k v : Tensor α) : Prop where
  problem : ofOperands (forwardOperands args) = .ok p
  incoming : args.optional 0 = some d
  query : args.optional 1 = some q
  key : args.optional 2 = some k
  value : args.optional 3 = some v
  incomingDense : d.isContiguous = true
  queryDense : q.isContiguous = true
  keyDense : k.isContiguous = true
  valueDense : v.isContiguous = true
  incomingElements : p.batch * p.queries * p.valueDepth = d.type.numElements
  queryElements : p.batch * p.queries * p.depth = q.type.numElements
  keyElements : p.batch * p.keys * p.depth = k.type.numElements
  valueElements : p.batch * p.keys * p.valueDepth = v.type.numElements
  reads : p.Reads of x (d.asRows p.valueDepth) (q.asRows p.depth) (k.asRows p.depth)
    (v.asRows p.valueDepth)
  probabilities : p.probabilities (forwardOperands args) = .ok (numberStack of p x.probability)
  factors : p.dropoutFactors.getD ((numberStack of p x.probability).map
    (·.map (·.map fun _ => Scalar.one))) = numberStack of p x.factor

namespace PosedInNumbers

variable {args : Operands (Tensor α)} {d q k v : Tensor α}
  (h : p.PosedInNumbers of x args d q k v)
include h

omit [CommRing R] in
theorem checkGradients_eq : p.checkGradients args = (do
    p.checkProbabilities (forwardOperands args)
    p.reserveGradients) := by
  have hincoming : (d.asRows p.valueDepth).reach (p.batch * p.queries) = .ok () :=
    Rows.reach_of_holds (Tensor.holds_asRows h.incomingElements)
  have hvalue : (v.asRows p.valueDepth).reach p.valueRows = .ok () :=
    Rows.reach_of_holds ((Tensor.holds_asRows h.valueElements).mono p.valueRows_le)
  unfold checkGradients reserveGradients
  rw [Operands.tensor_eq_ok_iff.2 h.incoming, Operands.tensor_eq_ok_iff.2 h.value]
  simp only [ok_bind, Tensor.rows_eq_ok h.incomingDense, Tensor.rows_eq_ok h.valueDense,
    hincoming, hvalue]
  cases reserve p.keys <;> rfl

variable (hof : IsNumbers of)
include hof

/-- The gradients that are computed row by row. -/
theorem backward_eq : backward args = (do
    let dQuery ← Tensor.ofElements q.type
      (numberTable of p.batch p.queries p.depth (x.queryGradient p)).flatten.toArray
    let dKey ← Tensor.ofElements k.type
      (numberTable of p.batch p.keys p.depth (x.keyGradient p)).flatten.toArray
    let dValue ← Tensor.ofElements v.type
      (numberTable of p.batch p.keys p.valueDepth (x.valueGradient p)).flatten.toArray
    return [dQuery, dKey, dValue]) := by
  obtain ⟨g, hg, hqueries, hkeys, hvalues⟩ := gradients_eq hof h.reads h.factors
  unfold backward
  rw [h.problem, Operands.tensor_eq_ok_iff.2 h.incoming, Operands.tensor_eq_ok_iff.2 h.query,
    Operands.tensor_eq_ok_iff.2 h.key, Operands.tensor_eq_ok_iff.2 h.value]
  simp only [ok_bind, h.probabilities, Tensor.rows_eq_ok h.incomingDense,
    Tensor.rows_eq_ok h.queryDense, Tensor.rows_eq_ok h.keyDense, Tensor.rows_eq_ok h.valueDense,
    hg, hqueries, hkeys, hvalues]

omit h in
/-- Rows of numbers that are all zero need not be computed. -/
theorem filled_eq_numberTable {type : TensorType} {blocks n width : Nat}
    {f : Nat → Nat → Nat → R} (hzero : ∀ b < blocks, ∀ i < n, ∀ c < width, f b i c = 0) :
    Tensor.filled type (blocks * n * width) Scalar.zero =
      Tensor.ofElements type (numberTable of blocks n width f).flatten.toArray := by
  have hentries : (numberTable of blocks n width f).flatten =
      List.replicate (blocks * n * width) Scalar.zero := by
    rw [← (isGrid_numberTable of blocks n width f).length_flatten]
    refine List.eq_replicate_iff.2 ⟨rfl, fun y hy => ?_⟩
    obtain ⟨b, hb, i, hi, c, hc, rfl⟩ := exists_of_mem_numberTable hy
    rw [hzero b hb i hi c hc, hof.zero]
  rw [Tensor.filled_eq, hentries, List.toArray_replicate]

/-- The gradients are those that are computed row by row, once their buffers exist. -/
theorem operandGradients_eq : operandGradients args = (do
    p.checkProbabilities (forwardOperands args)
    p.reserveGradients
    backward args) := by
  unfold operandGradients
  rw [h.problem, ok_bind, h.checkGradients_eq, bind_assoc]
  split
  · next hvanish =>
    obtain ⟨hquery, hkey, hvalue⟩ := vanish_eq x hvanish
    rw [h.backward_eq hof, Operands.tensor_eq_ok_iff.2 h.query, Operands.tensor_eq_ok_iff.2 h.key,
      Operands.tensor_eq_ok_iff.2 h.value]
    simp only [ok_bind, filled_eq_numberTable hof hquery, filled_eq_numberTable hof hkey,
      filled_eq_numberTable hof hvalue]
  · rfl

/-- The gradients have the types of the operands and the rows of the closed form. -/
theorem exists_gradients : ∃ dq dk dv : Tensor α,
    Tensor.ofElements q.type
      (numberTable of p.batch p.queries p.depth (x.queryGradient p)).flatten.toArray = .ok dq ∧
    Tensor.ofElements k.type
      (numberTable of p.batch p.keys p.depth (x.keyGradient p)).flatten.toArray = .ok dk ∧
    Tensor.ofElements v.type
      (numberTable of p.batch p.keys p.valueDepth (x.valueGradient p)).flatten.toArray = .ok dv ∧
    operandGradients args = (do
      p.checkProbabilities (forwardOperands args)
      p.reserveGradients
      return [dq, dk, dv]) := by
  obtain ⟨dq, hdq, -⟩ := Tensor.exists_ofGrid
    (isGrid_numberTable of p.batch p.queries p.depth (x.queryGradient p)) h.queryElements
  obtain ⟨dk, hdk, -⟩ := Tensor.exists_ofGrid
    (isGrid_numberTable of p.batch p.keys p.depth (x.keyGradient p)) h.keyElements
  obtain ⟨dv, hdv, -⟩ := Tensor.exists_ofGrid
    (isGrid_numberTable of p.batch p.keys p.valueDepth (x.valueGradient p)) h.valueElements
  refine ⟨dq, dk, dv, hdq, hdk, hdv, ?_⟩
  rw [h.operandGradients_eq hof, h.backward_eq hof, hdq, hdk, hdv]
  rfl

end PosedInNumbers

end Problem

end Attention

end TraceSubstitution
