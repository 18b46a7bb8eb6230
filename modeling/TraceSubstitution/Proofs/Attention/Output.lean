import TraceSubstitution.Attention.Execution
import TraceSubstitution.Proofs.Attention.Sizes

/-!
# The output of attention exists

When the operands pose a problem, every row and every mask value that the
reference implementation reads lies in its buffer. The probabilities are then a
stack of the sizes of the problem (`Posed.returns_probabilities`), and so are the
weights after dropout, and the output is a tensor of the type that is inferred
for it (`Posed.returns_output`). Only the buffers of the scores and of the output
have to exist.
-/

namespace TraceSubstitution

namespace Attention

namespace Problem

variable {α : Type}

/-- The rows of the keys that are read are rows of the keys. -/
theorem keyRows_le (p : Problem α) : p.keyRows ≤ p.batch * p.keys := by
  unfold keyRows
  split
  · exact Nat.zero_le _
  · next hne =>
    have hpos : 0 < p.batch := by
      refine Nat.pos_of_ne_zero fun hzero => hne ?_
      rw [hzero, Nat.zero_mul, Nat.zero_mul]
    have hread : (if p.causal then min p.queries p.keys else p.keys) ≤ p.keys := by
      split
      · exact Nat.min_le_right _ _
      · exact Nat.le_refl _
    -- All batch entries but the last one are read in full.
    obtain ⟨n, hn⟩ := Nat.exists_eq_succ_of_ne_zero (Nat.ne_of_gt hpos)
    rw [hn, Nat.succ_sub_one, Nat.succ_mul]
    omega

/-- The values of a dense mask that fits the scores can be read. -/
theorem exists_maskValues {args : Operands (Tensor α)} {q k mask : Tensor α}
    {target strides : List Nat} (hq : args.optional 0 = some q) (hk : args.optional 1 = some k)
    (hmask : args.optional 3 = some mask) (hdense : mask.isContiguous = true)
    (htarget : scoreDims q.type k.type = .ok target)
    (hstrides : maskStrides q.type k.type mask.type = .ok strides) :
    broadcastStrides mask.type.dims target = .ok strides ∧ ∃ values : List α,
      maskValues args = .ok (some values.toArray) ∧ values.length = volume target ∧
        broadcast mask.elements.toArray target strides = .ok values := by
  have hsteps : broadcastStrides mask.type.dims target = .ok strides := by
    unfold maskStrides at hstrides
    rwa [htarget] at hstrides
  have hsize : mask.elements.toArray.size = volume mask.type.dims := by
    rw [List.size_toArray, Tensor.length_elements]
    rfl
  obtain ⟨values, hvalues, hlength⟩ := returns_iff.1 (returns_broadcast hsteps hsize)
  refine ⟨hsteps, values, ?_, hlength, hvalues⟩
  unfold maskValues
  rw [Operands.tensor_eq_ok_iff.2 hq, Operands.tensor_eq_ok_iff.2 hk]
  simp only [ok_bind, hmask, hstrides, Tensor.block_eq_ok hdense, htarget, hvalues]
  rfl

variable [Scalar α] {p : Problem α} {args : Operands (Tensor α)} {q k v : Tensor α}
  {batch : List Nat}

namespace Posed

variable (h : p.Posed args q k v batch)
include h

theorem queryElements : p.batch * p.queries * p.depth = q.type.numElements := by
  rw [h.queryAxes.numElements, h.size]

theorem keyElements : p.batch * p.keys * p.depth = k.type.numElements := by
  rw [h.keyAxes.numElements, h.size]

theorem valueElements : p.batch * p.keys * p.valueDepth = v.type.numElements := by
  rw [h.valueAxes.numElements, h.size]

theorem holds_query : (q.asRows p.depth).Holds (p.batch * p.queries) :=
  Tensor.holds_asRows h.queryElements

theorem holds_key : (k.asRows p.depth).Holds (p.batch * p.keys) :=
  Tensor.holds_asRows h.keyElements

theorem holds_value : (v.asRows p.valueDepth).Holds (p.batch * p.keys) :=
  Tensor.holds_asRows h.valueElements

theorem scoreDims_eq_ok : scoreDims q.type k.type = .ok (batch ++ [p.queries, p.keys]) := by
  have hrank : ¬ q.type.rank < 2 := by rw [h.queryAxes.rank_eq]; omega
  have hkeys : Require.dim k.type (q.type.rank - 2) = .ok p.keys := by
    rw [h.queryAxes.rank_eq, ← h.keyAxes.rank_eq]
    exact Require.dim_eq_ok_iff.2 h.keyAxes.getElem?_rows
  unfold scoreDims
  rw [if_neg hrank, hkeys, h.queryAxes.take_rows]
  simp

/-- A mask has a value for every score. -/
theorem returns_maskValues :
    Returns (maskValues args) fun m => ∀ x, m = some x → x.size = p.batch * p.queries * p.keys := by
  cases hmask : args.optional 3 with
  | none =>
    unfold maskValues
    rw [Operands.tensor_eq_ok_iff.2 h.query, Operands.tensor_eq_ok_iff.2 h.key, hmask]
    exact nofun
  | some m =>
    obtain ⟨t, rfl, strides, hstrides⟩ := h.mask m hmask
    obtain ⟨-, values, hvalues, hlength, -⟩ := exists_maskValues h.query h.key hmask
      t.isContiguous_contiguous (by simpa using h.scoreDims_eq_ok) (by simpa using hstrides)
    rw [hvalues]
    intro x hx
    obtain rfl := Option.some.inj hx
    rw [List.size_toArray, hlength, h.size]
    simp [Nat.mul_assoc]

omit h in
/-- Every score of a query can be computed: its key and its mask value are there. -/
theorem returns_score {m : Rows α} (hm : m.Holds (p.batch * p.keys)) {mask : Option (Array α)}
    (hmask : ∀ x, mask = some x → x.size = p.batch * p.queries * p.keys) {b i j : Nat}
    (hb : b < p.batch) (hi : i < p.queries) (hj : j < p.keys) (query : List α) :
    Returns (p.score m mask b i query j) fun _ => True := by
  unfold score
  split
  · trivial
  · refine (hm.returns_row (index_lt hb hj)).bind fun key _ _ => ?_
    cases mask with
    | none => trivial
    | some x =>
      have hx : (b * p.queries + i) * p.keys + j < x.size := by
        rw [hmask x rfl]
        exact index_lt (index_lt hb hi) hj
      refine Ends.bind (P := fun _ => True) ?_ fun _ _ _ => trivial
      rw [Array.getElem?_eq_getElem hx]
      trivial

omit h in
theorem length_softmax (scores : List α) : (softmax scores).length = scores.length := by
  unfold softmax
  dsimp only
  split <;> simp

/-- The probabilities are there for every batch entry, query and key. -/
theorem returns_probabilities :
    Returns (p.probabilities args) (IsStack p.batch p.queries p.keys) := by
  unfold probabilities
  rw [Operands.tensor_eq_ok_iff.2 h.query, Operands.tensor_eq_ok_iff.2 h.key]
  simp only [ok_bind, Tensor.rows_contiguous]
  refine h.returns_maskValues.bind fun mask _ hmask => ?_
  refine returns_stack fun b hb => returns_grid fun i hi => ?_
  unfold probabilityRow
  refine (h.holds_query.returns_row (index_lt hb hi)).bind fun query _ _ => ?_
  refine (Ends.mapM fun j hj => returns_score h.holds_key hmask hb hi (List.mem_range.1 hj)
    query).bind fun scores _ hscores => ?_
  exact (length_softmax scores).trans (hscores.1.trans List.length_range)

theorem checkProbabilities_eq_ok (hscores : p.batch * p.queries * p.keys < bufferBound) :
    p.checkProbabilities args = .ok () := by
  have hmask : checkMask args = .ok () := by
    unfold checkMask
    rw [Operands.tensor_eq_ok_iff.2 h.query, Operands.tensor_eq_ok_iff.2 h.key]
    simp only [ok_bind, Tensor.type_contiguous]
    cases hmask : args.optional 3 with
    | none => rfl
    | some m =>
      obtain ⟨t, rfl, strides, hstrides⟩ := h.mask m hmask
      simp only [Tensor.type_contiguous, hstrides]
      rfl
  unfold checkProbabilities
  rw [Operands.tensor_eq_ok_iff.2 h.key]
  simp only [hmask, reserve_eq_ok_iff.2 hscores, ok_bind, Tensor.rows_contiguous]
  exact Rows.reach_of_holds (h.holds_key.mono p.keyRows_le)

end Posed

theorem isStack_dropoutFactors {factors : List (List (List α))}
    (h : p.dropoutFactors = some factors) : IsStack p.batch p.queries p.keys factors := by
  unfold dropoutFactors at h
  split at h
  · exact nomatch h
  · obtain rfl := Option.some.inj h
    refine ⟨by simp, fun entry hentry => ?_⟩
    obtain ⟨b, hb, rfl⟩ := List.mem_map.1 hentry
    refine ⟨by simp, fun row hrow => ?_⟩
    obtain ⟨i, hi, rfl⟩ := List.mem_map.1 hrow
    -- the factors of one query lie in the stream of all words
    have hend : (b * p.queries + i) * p.keys + p.keys ≤ p.batch * p.queries * p.keys := by
      rw [← Nat.succ_mul]
      exact Nat.mul_le_mul_right _ (index_lt (List.mem_range.1 hb) (List.mem_range.1 hi))
    simp only [List.length_map, Array.length_toList, Array.size_extract, List.size_toArray,
      length_randomWords]
    omega

theorem isStack_applyDropout {probabilities : List (List (List α))}
    (h : IsStack p.batch p.queries p.keys probabilities) :
    IsStack p.batch p.queries p.keys (p.applyDropout probabilities) := by
  unfold applyDropout
  split
  · exact h
  · next factors hfactors => exact h.zipWith (isStack_dropoutFactors hfactors)

/-- A sum of rows, each times a number, is a row. -/
theorem returns_sumRows {m : Rows α} {width b : Nat} (hm : m.Holds (p.batch * p.keys))
    (hwidth : m.width = width) (hb : b < p.batch) {weights : List α}
    (hweights : weights.length = p.keys) :
    Returns (weights.zipIdx.foldlM (fun acc (w, j) => do
      if Scalar.same w Scalar.zero then return acc
      else return Scalar.addScaled acc w (← m.row (b * p.keys + j))) (zeroRow width))
      (·.length = width) := by
  refine Ends.foldlM (fun e he acc hacc => ?_) (by simp [zeroRow])
  have hj : e.2 < p.keys := by
    have := List.snd_lt_of_mem_zipIdx he
    omega
  dsimp only
  split
  · exact hacc
  · refine (hm.returns_row (index_lt hb hj)).bind fun row _ hrow => ?_
    rw [ends_pure, Scalar.length_addScaled, hacc, hrow, hwidth, Nat.min_self]

theorem returns_outputRows {m : Rows α} (hm : m.Holds (p.batch * p.keys))
    (hwidth : m.width = p.valueDepth) {weights : List (List (List α))}
    (h : IsStack p.batch p.queries p.keys weights) :
    Returns (p.outputRows m weights) (IsStack p.batch p.queries p.valueDepth) := by
  unfold outputRows
  refine (Ends.mapM_zipIdx (R := IsGrid p.queries p.valueDepth) fun entry hentry b hb => ?_).mono
    fun rows _ hrows => ⟨hrows.1.trans h.length, hrows.2⟩
  have hgrid := h.grid entry hentry
  refine (Ends.mapM (R := fun row => row.length = p.valueDepth) fun row hrow => ?_).mono
    fun rows _ hrows => ⟨hrows.1.trans hgrid.length, hrows.2⟩
  exact returns_sumRows hm hwidth (h.length ▸ hb) (hgrid.width row hrow)

namespace Posed

variable (h : p.Posed args q k v batch)
include h

theorem returns_forward : Returns (forward args) fun t =>
    t.type = q.type.withShape ⟨batch ++ [p.queries, p.valueDepth]⟩ := by
  unfold forward
  rw [h.problem, Operands.tensor_eq_ok_iff.2 h.query, Operands.tensor_eq_ok_iff.2 h.value]
  simp only [ok_bind, Tensor.rows_contiguous, Tensor.type_contiguous,
    h.queryAxes.withLastDim p.valueDepth]
  refine h.returns_probabilities.bind fun probabilities _ hprobabilities => ?_
  refine (returns_outputRows h.holds_value rfl (isStack_applyDropout hprobabilities)).bind
    fun rows _ hrows => Tensor.returns_ofStack hrows ?_
  rw [h.size, (TensorType.HasAxes.withShape q.type batch p.queries p.valueDepth).numElements]

/-- The output exists if its buffer and that of the scores do. -/
theorem returns_output (hscores : p.batch * p.queries * p.keys < bufferBound)
    (hsize : p.batch * p.queries * p.valueDepth < bufferBound) : Returns (output args) fun t =>
      t.type = q.type.withShape ⟨batch ++ [p.queries, p.valueDepth]⟩ := by
  unfold output
  rw [h.problem]
  have hcheck : p.checkOutput args = .ok () := by
    unfold checkOutput
    rw [h.checkProbabilities_eq_ok hscores]
    exact reserve_eq_ok_iff.2 hsize
  simp only [ok_bind, hcheck]
  split
  · next hzero =>
    rw [Operands.tensor_eq_ok_iff.2 h.query]
    simp only [ok_bind, Tensor.type_contiguous, h.queryAxes.withLastDim p.valueDepth]
    refine Tensor.returns_filled ?_
    rw [(TensorType.HasAxes.withShape q.type batch p.queries p.valueDepth).numElements, ← h.size]
    exact hzero.symm
  · exact h.returns_forward

end Posed

end Problem

end Attention

end TraceSubstitution
