import TraceSubstitution.Proofs.Attention.Output

/-!
# The gradients of attention exist

The backward pass reads the same rows as the forward pass, and the rows of the
gradient that flows in. What it gathers for one query has one entry for every key
(`QueryGradient.Sized`), so the gradients of queries, keys and values are stacks of
the sizes of the operands they belong to (`Posed.returns_operandGradients`).
-/

namespace TraceSubstitution

namespace Attention

namespace Problem

variable {α : Type} [Scalar α] {p : Problem α}

omit [Scalar α] in
/-- The rows of the values that are read are rows of the values. -/
theorem valueRows_le (p : Problem α) : p.valueRows ≤ p.batch * p.keys := by
  unfold valueRows
  split
  · exact Nat.zero_le _
  · exact Nat.le_refl _

/-- What the gradients need of a query has the sizes of the problem. -/
structure QueryGradient.Sized (p : Problem α) (g : QueryGradient α) : Prop where
  query : g.query.length = p.depth
  output : g.output.length = p.valueDepth
  scores : g.scores.toList.length = p.keys

/-- The rows of the operands and of the gradient that flows in lie in their buffers. -/
structure Readable (p : Problem α) (dOut q k v : Rows α) : Prop where
  output : dOut.Holds (p.batch * p.queries)
  query : q.Holds (p.batch * p.queries)
  key : k.Holds (p.batch * p.keys)
  value : v.Holds (p.batch * p.keys)
  outputWidth : dOut.width = p.valueDepth
  queryWidth : q.width = p.depth
  keyWidth : k.width = p.depth
  valueWidth : v.width = p.valueDepth

variable {dOut q k v : Rows α}

theorem Readable.returns_queryGradient (h : p.Readable dOut q k v) {b i : Nat} (hb : b < p.batch)
    (hi : i < p.queries) {probabilities factors : List α}
    (hprobabilities : probabilities.length = p.keys) (hfactors : factors.length = p.keys) :
    Returns (p.queryGradient dOut q v b i probabilities factors) (QueryGradient.Sized p) := by
  unfold queryGradient
  refine (h.output.returns_row (index_lt hb hi)).bind fun output _ houtput => ?_
  refine (Ends.mapM_zipIdx (R := fun _ => True) fun f _ j hj => ?_).bind
    fun gradients _ hgradients => ?_
  · exact (h.value.returns_row (index_lt hb (hfactors ▸ hj))).bind fun _ _ _ => trivial
  · refine (h.query.returns_row (index_lt hb hi)).bind fun query _ hquery => ?_
    refine ⟨hquery.trans h.queryWidth, houtput.trans h.outputWidth, ?_⟩
    simp [scoreGradients, hgradients.1, hprobabilities, hfactors]

theorem length_gatherQueries {gradients : List (QueryGradient α)}
    (h : ∀ g ∈ gradients, QueryGradient.Sized p g) (j : Nat) :
    (p.gatherQueries gradients j).length = p.depth := by
  refine length_gather (by simp [zeroRow]) fun acc hacc g hg => ?_
  dsimp only
  split
  · exact hacc
  · rw [Scalar.length_addScaled, hacc, (h g hg).query, Nat.min_self]

theorem length_gatherOutputs {gradients : List (QueryGradient α)}
    (h : ∀ g ∈ gradients, QueryGradient.Sized p g) (j : Nat) :
    (p.gatherOutputs gradients j).length = p.valueDepth := by
  refine length_gather (by simp [zeroRow]) fun acc hacc g hg => ?_
  rw [Scalar.length_addScaled, hacc, (h g hg).output, Nat.min_self]

/-- The gradients of the rows have the sizes of the operands. -/
structure Gradients.Sized (p : Problem α) (g : Gradients α) : Prop where
  queries : IsStack p.batch p.queries p.depth g.queries
  keys : IsStack p.batch p.keys p.depth g.keys
  values : IsStack p.batch p.keys p.valueDepth g.values

omit [Scalar α] in
/-- The rows that are gathered for every key of every batch entry. -/
theorem isStack_gather {entries : List (List (QueryGradient α))}
    {gather : List (QueryGradient α) → Nat → List α} {width : Nat}
    (hlength : entries.length = p.batch)
    (h : ∀ entry ∈ entries, ∀ j, (gather entry j).length = width) :
    IsStack p.batch p.keys width
      (entries.map fun entry => (List.range p.keys).map (gather entry)) := by
  refine ⟨by rw [List.length_map, hlength], fun rows hrows => ?_⟩
  obtain ⟨entry, hentry, rfl⟩ := List.mem_map.1 hrows
  refine ⟨by simp, fun row hrow => ?_⟩
  obtain ⟨j, -, rfl⟩ := List.mem_map.1 hrow
  exact h entry hentry j

theorem isStack_ones {probabilities : List (List (List α))}
    (h : IsStack p.batch p.queries p.keys probabilities) :
    IsStack p.batch p.queries p.keys
      (probabilities.map (·.map (·.map fun _ => (Scalar.one : α)))) := by
  refine ⟨by rw [List.length_map, h.length], fun grid hgrid => ?_⟩
  obtain ⟨entry, hentry, rfl⟩ := List.mem_map.1 hgrid
  refine ⟨by rw [List.length_map, (h.grid entry hentry).length], fun row hrow => ?_⟩
  obtain ⟨weights, hweights, rfl⟩ := List.mem_map.1 hrow
  rw [List.length_map, (h.grid entry hentry).width weights hweights]

/-- What the gradients need is there for every batch entry and query. -/
theorem Readable.returns_queryGradients (h : p.Readable dOut q k v)
    {probabilities factors : List (List (List α))}
    (hprobabilities : IsStack p.batch p.queries p.keys probabilities)
    (hfactors : IsStack p.batch p.queries p.keys factors) :
    Returns ((probabilities.zip factors).zipIdx.mapM fun ((ps, fs), b) =>
      (ps.zip fs).zipIdx.mapM fun ((pr, f), i) => p.queryGradient dOut q v b i pr f) fun entries =>
        entries.length = p.batch ∧ ∀ entry ∈ entries, entry.length = p.queries ∧
          ∀ g ∈ entry, QueryGradient.Sized p g := by
  have hlength : (probabilities.zip factors).length = p.batch := by
    rw [List.length_zip, hprobabilities.length, hfactors.length, Nat.min_self]
  refine (Ends.mapM_zipIdx fun e he b hb => ?_).mono fun entries _ hentries =>
    ⟨hentries.1.trans hlength, hentries.2⟩
  obtain ⟨hps, hfs⟩ := List.of_mem_zip he
  have hgrid := hprobabilities.grid e.1 hps
  have hgrid' := hfactors.grid e.2 hfs
  have hrows : (e.1.zip e.2).length = p.queries := by
    rw [List.length_zip, hgrid.length, hgrid'.length, Nat.min_self]
  refine (Ends.mapM_zipIdx (R := QueryGradient.Sized p) fun r hr i hi => ?_).mono
    fun entry _ hentry => ⟨hentry.1.trans hrows, hentry.2⟩
  obtain ⟨hr, hr'⟩ := List.of_mem_zip hr
  exact h.returns_queryGradient (hlength ▸ hb) (hrows ▸ hi) (hgrid.width r.1 hr)
    (hgrid'.width r.2 hr')

theorem Readable.returns_gradients (h : p.Readable dOut q k v)
    {probabilities : List (List (List α))}
    (hprobabilities : IsStack p.batch p.queries p.keys probabilities) :
    Returns (p.gradients dOut q k v probabilities p.dropoutFactors) (Gradients.Sized p) := by
  have hfactors : IsStack p.batch p.queries p.keys
      (p.dropoutFactors.getD (probabilities.map (·.map (·.map fun _ => Scalar.one)))) := by
    -- Without dropout every factor is one.
    cases hdropout : p.dropoutFactors with
    | none => exact isStack_ones hprobabilities
    | some factors => exact isStack_dropoutFactors hdropout
  unfold gradients
  refine (h.returns_queryGradients hprobabilities hfactors).bind fun entries _ hentries => ?_
  have hcount : entries.length = p.batch := hentries.1
  refine (Ends.mapM_zipIdx (R := IsGrid p.queries p.depth) fun entry hentry b hb => ?_).bind
    fun queries _ hqueries => ?_
  · obtain ⟨hrows, hsized⟩ := hentries.2 entry hentry
    refine (Ends.mapM (R := fun row => row.length = p.depth) fun g hg => ?_).mono
      fun rows _ hgrid => ⟨hgrid.1.trans hrows, hgrid.2⟩
    exact returns_sumRows h.key h.keyWidth (hcount ▸ hb) (hsized g hg).scores
  · exact ⟨⟨hqueries.1.trans hcount, hqueries.2⟩,
      isStack_gather hcount fun entry hentry => length_gatherQueries (hentries.2 entry hentry).2,
      isStack_gather hcount fun entry hentry => length_gatherOutputs (hentries.2 entry hentry).2⟩

namespace Posed

variable {args : Operands (Tensor α)} {d q k v : Tensor α} {batch : List Nat}
  (h : p.Posed (forwardOperands args) q k v batch) (hd : args.optional 0 = some d.contiguous)
  (hsize : p.batch * p.queries * p.valueDepth = d.type.numElements)
include h

theorem readable (hsize : p.batch * p.queries * p.valueDepth = d.type.numElements) :
    p.Readable (d.asRows p.valueDepth) (q.asRows p.depth) (k.asRows p.depth)
      (v.asRows p.valueDepth) :=
  ⟨Tensor.holds_asRows hsize, h.holds_query, h.holds_key, h.holds_value, rfl, rfl, rfl, rfl⟩

include hd hsize

theorem returns_backward : Returns (backward args) fun ts =>
    ts.map Tensor.type = [q.type, k.type, v.type] := by
  have hq : args.tensor 1 = .ok q.contiguous := Operands.tensor_eq_ok_iff.2 h.query
  have hk : args.tensor 2 = .ok k.contiguous := Operands.tensor_eq_ok_iff.2 h.key
  have hv : args.tensor 3 = .ok v.contiguous := Operands.tensor_eq_ok_iff.2 h.value
  unfold backward
  rw [h.problem, hq, hk, hv, Operands.tensor_eq_ok_iff.2 hd]
  simp only [ok_bind, Tensor.rows_contiguous, Tensor.type_contiguous]
  refine h.returns_probabilities.bind fun probabilities _ hprobabilities => ?_
  refine ((h.readable hsize).returns_gradients hprobabilities).bind fun g _ hg => ?_
  refine (Tensor.returns_ofStack hg.queries h.queryElements).bind fun dQuery _ hdQuery => ?_
  refine (Tensor.returns_ofStack hg.keys h.keyElements).bind fun dKey _ hdKey => ?_
  refine (Tensor.returns_ofStack hg.values h.valueElements).bind fun dValue _ hdValue => ?_
  simp [hdQuery, hdKey, hdValue]

/-- The gradients exist if their buffers and those of the scores do. -/
theorem returns_operandGradients (hscores : p.batch * p.queries * p.keys < bufferBound)
    (hkeys : p.keys < bufferBound) (hquery : q.type.numElements < bufferBound)
    (hkey : k.type.numElements < bufferBound) (hvalue : v.type.numElements < bufferBound) :
    Returns (operandGradients args) fun ts => ts.map Tensor.type = [q.type, k.type, v.type] := by
  have hq : args.tensor 1 = .ok q.contiguous := Operands.tensor_eq_ok_iff.2 h.query
  have hk : args.tensor 2 = .ok k.contiguous := Operands.tensor_eq_ok_iff.2 h.key
  have hv : args.tensor 3 = .ok v.contiguous := Operands.tensor_eq_ok_iff.2 h.value
  have hcheck : p.checkGradients args = .ok () := by
    rw [← h.queryElements] at hquery
    rw [← h.keyElements] at hkey
    rw [← h.valueElements] at hvalue
    unfold checkGradients
    rw [h.checkProbabilities_eq_ok hscores, reserve_eq_ok_iff.2 hquery, reserve_eq_ok_iff.2 hkey,
      reserve_eq_ok_iff.2 hvalue, reserve_eq_ok_iff.2 hkeys, Operands.tensor_eq_ok_iff.2 hd, hv]
    simp only [ok_bind, Tensor.rows_contiguous,
      Rows.reach_of_holds (h.readable hsize).output]
    exact Rows.reach_of_holds (h.holds_value.mono p.valueRows_le)
  unfold operandGradients
  rw [h.problem]
  simp only [ok_bind, hcheck]
  split
  · rw [hq, hk, hv]
    simp only [ok_bind, Tensor.type_contiguous]
    refine (Tensor.returns_filled h.queryElements).bind fun dQuery _ hdQuery => ?_
    refine (Tensor.returns_filled h.keyElements).bind fun dKey _ hdKey => ?_
    refine (Tensor.returns_filled h.valueElements).bind fun dValue _ hdValue => ?_
    simp [hdQuery, hdKey, hdValue]
  · exact h.returns_backward hd hsize

end Posed

end Problem

end Attention

end TraceSubstitution
