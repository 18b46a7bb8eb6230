import TraceSubstitution.Proofs.Attention.ExactGradients
import TraceSubstitution.Proofs.Flash.Exact
import TraceSubstitution.Proofs.Flash.Gradients

/-!
# The fused gradients are those of the reference implementation

From the logarithm of a query the backward part finds the probabilities again that the
forward part did not keep (`BackwardRows.ReadsExactly.pairTerms_eq`). The product of the
gradient of an output row with the row itself is the sum, over all keys, of the
probability times its gradient; so the fused kernel and the reference implementation
gather the same multiples of the same rows. Padding is cut off again, and neither the
size of the blocks nor the alignment makes a difference.
-/

namespace TraceSubstitution

namespace Flash

open Attention Extended ExactScalars

variable {K : Type} [Field K] [LinearOrder K] [ExactScalars K]

/-- The problem of a fused call. -/
abbrev Layout.exactProblem (l : Layout) (c : K) (causal : Bool) : Problem (Extended K) :=
  l.problem (of c) causal (of 0) 0

/-- The numbers that the gradients of a fused call are made of. -/
abbrev Layout.exactNumbers (l : Layout) (x : ExactRows K) (c : K) (causal : Bool)
    (gradient : Nat → List K) : CallNumbers K :=
  (l.exactProblem c causal).exactNumbers x c gradient

/-- Without dropout, the gradient of a probability is the product of the gradient of the output row
and the value. -/
theorem Layout.weightGradient_exactNumbers (l : Layout) (x : ExactRows K) (c : K) (causal : Bool)
    (gradient : Nat → List K) (head i j : Nat) :
    (l.exactNumbers x c causal gradient).weightGradient (l.exactProblem c causal) head i j =
      ∑ col ∈ Finset.range l.valueDepth,
        (l.exactNumbers x c causal gradient).dOut (head * l.queries + i) col *
          (l.exactNumbers x c causal gradient).value (head * l.keys + j) col :=
  mul_one _

theorem Layout.factor_exactNumbers (l : Layout) (x : ExactRows K) (c : K) (causal : Bool)
    (gradient : Nat → List K) (head i j : Nat) :
    (l.exactNumbers x c causal gradient).factor head i j = 1 := rfl

theorem Layout.probability_hidden (l : Layout) {x : ExactRows K} {c : K} {causal : Bool}
    {gradient : Nat → List K} {head i j : Nat} (h : ¬ j < l.visible i causal) :
    (l.exactNumbers x c causal gradient).probability head i j = 0 :=
  if_neg h

theorem Layout.scoreGradient_hidden (l : Layout) {x : ExactRows K} {c : K} {causal : Bool}
    {gradient : Nat → List K} {head i j : Nat} (h : ¬ j < l.visible i causal) :
    (l.exactNumbers x c causal gradient).scoreGradient (l.exactProblem c causal) head i j = 0 := by
  unfold CallNumbers.scoreGradient
  rw [l.probability_hidden h, zero_mul, zero_mul]

/-- The operands of a backward part are numbers. The output and the logarithms are those of exact
attention. -/
structure BackwardRows.ReadsExactly (r : BackwardRows (Extended K)) (l : Layout)
    (x : ExactRows K) (c : K) (causal : Bool) (gradient : Nat → List K) : Prop where
  sized : x.Sized (l.exactProblem c causal)
  dOut : ∀ row < l.heads * l.queries, r.dOut.values row =
    numberRow of l.valueDepth ((l.exactNumbers x c causal gradient).dOut row)
  query : ∀ row < l.heads * l.queries, r.q.values row = (x.query row).map of
  key : ∀ row < l.heads * l.keys, r.k.values row = (x.key row).map of
  value : ∀ row < l.heads * l.keys, r.v.values row = (x.value row).map of
  out : ∀ head < l.heads, ∀ i < l.queries, r.out.values (head * l.queries + i) =
    (meanRow l.valueDepth (l.seen x c causal head i)).map of
  lse : ∀ head < l.heads, ∀ i < l.queries, r.lse.values (head * l.queries + i) =
    [logSum ((l.seen x c causal head i).map (·.1))]

namespace BackwardRows.ReadsExactly

variable {l : Layout} {r : BackwardRows (Extended K)} {x : ExactRows K} {c : K} {causal : Bool}
  {gradient : Nat → List K} (h : r.ReadsExactly l x c causal gradient) {head i j : Nat}
  (hhead : head < l.heads)
include h hhead

theorem value_eq (hj : j < l.keys) : r.v.values (head * l.keys + j) =
    numberRow of l.valueDepth ((l.exactNumbers x c causal gradient).value (head * l.keys + j)) :=
  (h.value _ (index_lt hhead hj)).trans
    (map_eq_numberRow of (h.sized.value _ (index_lt hhead hj)))

theorem query_eq (hi : i < l.queries) : r.q.values (head * l.queries + i) =
    numberRow of l.depth ((l.exactNumbers x c causal gradient).query (head * l.queries + i)) :=
  (h.query _ (index_lt hhead hi)).trans
    (map_eq_numberRow of (h.sized.query _ (index_lt hhead hi)))

theorem key_eq (hj : j < l.keys) : r.k.values (head * l.keys + j) =
    numberRow of l.depth ((l.exactNumbers x c causal gradient).key (head * l.keys + j)) :=
  (h.key _ (index_lt hhead hj)).trans (map_eq_numberRow of (h.sized.key _ (index_lt hhead hj)))

/-- The product of an output row with its gradient is the sum of the gradients of the probabilities,
each times the probability. -/
theorem dot_out (hi : i < l.queries) :
    Scalar.dot (r.dOut.values (head * l.queries + i)) (r.out.values (head * l.queries + i)) =
      of (∑ j ∈ Finset.range l.keys, (l.exactNumbers x c causal gradient).probability head i j *
        (l.exactNumbers x c causal gradient).weightGradient (l.exactProblem c causal) head i
          j) := by
  have hout : r.out.values (head * l.queries + i) = numberRow of l.valueDepth fun col =>
      ∑ j ∈ Finset.range l.keys, (l.exactNumbers x c causal gradient).probability head i j *
        (l.exactNumbers x c causal gradient).value (head * l.keys + j) col := by
    refine ((h.out head hhead i hi).trans (congrArg _
      ((l.exactProblem c causal).meanRow_seen c h.sized hhead i))).trans ?_
    simp only [numberRow, List.map_map]
    rfl
  rw [hout, h.dOut _ (index_lt hhead hi), isNumbers_of.dot_eq]
  simp only [mul_comm ((l.exactNumbers x c causal gradient).dOut _ _), ← sum_mul_sum_comm]
  refine congrArg of (Finset.sum_congr rfl fun j _ => ?_)
  rw [Layout.weightGradient_exactNumbers]
  simp only [mul_comm ((l.exactNumbers x c causal gradient).dOut _ _)]

/-- The probability of a key that a query sees, and the gradient of its score. -/
theorem pairTerms_eq [IsStrictOrderedRing K] (hi : i < l.queries) (hj : j < l.keys) :
    r.pairTerms l (of c) causal head i j = if j < l.visible i causal then
      some (of ((l.exactNumbers x c causal gradient).probability head i j),
        of ((l.exactNumbers x c causal gradient).scoreGradient (l.exactProblem c causal) head i j))
      else none := by
  unfold pairTerms
  rw [h.lse head hhead i hi, List.headD_cons]
  by_cases hseen : j < l.visible i causal
  · have hscores : (l.seen x c causal head i).map (·.1) ≠ [] := by
      have := Nat.zero_lt_of_lt hseen
      simpa [Layout.seen, ExactRows.seen] using this.ne'
    have hlog : logSum ((l.seen x c causal head i).map (·.1)) =
      of (log (mass ((l.seen x c causal head i).map (·.1)))) := if_neg hscores
    rw [if_pos hseen, hlog, lowest_eq, same_lowest, if_neg Bool.false_ne_true, if_pos hseen]
    have hprobability : Scalar.exp (of c * Scalar.dot (r.q.values (head * l.queries + i))
        (r.k.values (head * l.keys + j)) - of (log (mass ((l.seen x c causal head i).map (·.1))))) =
          of ((l.exactNumbers x c causal gradient).probability head i j) := by
      -- Subtracting the logarithm of the mass before the exponential divides by the mass.
      rw [h.query _ (index_lt hhead hi), h.key _ (index_lt hhead hj), dot_of, of_mul, of_sub,
        exp_of, exp_sub, exp_log _ (mass_pos hscores)]
      exact congrArg of (if_pos hseen).symm
    unfold keyTerms
    rw [hprobability, h.dot_out hhead hi, h.dOut _ (index_lt hhead hi), h.value_eq hhead hj,
      isNumbers_of.dot_eq]
    simp only [of_sub, of_mul, CallNumbers.scoreGradient, Layout.weightGradient_exactNumbers]
    rfl
  · rw [if_neg hseen, if_neg hseen, ite_self]

variable [IsStrictOrderedRing K]

/-- A row is added with a factor of its key, which is zero for keys that the query does not see. -/
theorem elim_pairTerms {part : Extended K × Extended K → Extended K} {s : K}
    (hpart : part (of ((l.exactNumbers x c causal gradient).probability head i j),
      of ((l.exactNumbers x c causal gradient).scoreGradient (l.exactProblem c causal) head i j)) =
        of s) (hhidden : ¬ j < l.visible i causal → s = 0) (hi : i < l.queries) (hj : j < l.keys)
    {width : Nat} (f g : Nat → K) :
    (r.pairTerms l (of c) causal head i j).elim (numberRow of width f)
      (fun t => Scalar.addScaled (numberRow of width f) (part t) (numberRow of width g)) =
        numberRow of width fun col => f col + s * g col := by
  rw [h.pairTerms_eq hhead hi hj]
  by_cases hseen : j < l.visible i causal
  · rw [if_pos hseen, Option.elim_some, hpart]
    exact isNumbers_of.addScaled_eq f s g
  · rw [if_neg hseen, Option.elim_none, hhidden hseen]
    simp only [zero_mul, add_zero]

theorem queryRow_eq (hi : i < l.queries) : r.queryRow l (of c) causal head i =
    numberRow of l.depth ((l.exactNumbers x c causal gradient).queryGradient
      (l.exactProblem c causal) head i) := by
  have hstep : ∀ f, ∀ j < l.visible i causal, (fun acc j =>
      (r.pairTerms l (of c) causal head i j).elim acc fun t =>
        Scalar.addScaled acc t.2 (r.k.values (head * l.keys + j))) (numberRow of l.depth f) j =
      numberRow of l.depth fun col => f col + (l.exactNumbers x c causal gradient).scoreGradient
        (l.exactProblem c causal) head i j *
          (l.exactNumbers x c causal gradient).key (head * l.keys + j) col := by
    intro f j hj
    have hj := Nat.lt_of_lt_of_le hj (l.visible_le i causal)
    dsimp only
    rw [h.key_eq hhead hj]
    exact h.elim_pairTerms hhead rfl l.scoreGradient_hidden hi hj f _
  rw [BackwardRows.queryRow_eq, isNumbers_of.replicate_zero, IsNumbers.foldl_rows hstep]
  simp only [zero_add]
  -- The kernel stops at the last key that is seen; the closed form goes on with zeros.
  refine numberRow_congr of fun col _ =>
    Finset.sum_subset (Finset.range_mono (l.visible_le i causal)) fun j _ hj => ?_
  rw [l.scoreGradient_hidden (by simpa using hj), zero_mul]

theorem keyRow_eq (hj : j < l.keys) : r.keyRow l (of c) causal head j =
    numberRow of l.depth ((l.exactNumbers x c causal gradient).keyGradient
      (l.exactProblem c causal) head j) := by
  have hstep : ∀ f, ∀ i < l.queries, (fun acc i =>
      (r.pairTerms l (of c) causal head i j).elim acc fun t =>
        Scalar.addScaled acc t.2 (r.q.values (head * l.queries + i))) (numberRow of l.depth f) i =
      numberRow of l.depth fun col => f col + (l.exactNumbers x c causal gradient).scoreGradient
        (l.exactProblem c causal) head i j *
          (l.exactNumbers x c causal gradient).query (head * l.queries + i) col := by
    intro f i hi
    dsimp only
    rw [h.query_eq hhead hi]
    exact h.elim_pairTerms hhead rfl l.scoreGradient_hidden hi hj f _
  rw [BackwardRows.keyRow_eq, isNumbers_of.replicate_zero, IsNumbers.foldl_rows hstep]
  simp only [zero_add]
  rfl

theorem valueRow_eq (hj : j < l.keys) : r.valueRow l (of c) causal head j =
    numberRow of l.valueDepth ((l.exactNumbers x c causal gradient).valueGradient
      (l.exactProblem c causal) head j) := by
  have hstep : ∀ f, ∀ i < l.queries, (fun acc i =>
      (r.pairTerms l (of c) causal head i j).elim acc fun t =>
        Scalar.addScaled acc t.1 (r.dOut.values (head * l.queries + i)))
          (numberRow of l.valueDepth f) i =
      numberRow of l.valueDepth fun col => f col +
        (l.exactNumbers x c causal gradient).probability head i j *
          (l.exactNumbers x c causal gradient).dOut (head * l.queries + i) col := by
    intro f i hi
    dsimp only
    rw [h.dOut _ (index_lt hhead hi)]
    exact h.elim_pairTerms hhead rfl l.probability_hidden hi hj f _
  rw [BackwardRows.valueRow_eq, isNumbers_of.replicate_zero, IsNumbers.foldl_rows hstep]
  unfold CallNumbers.valueGradient
  simp only [zero_add, Layout.factor_exactNumbers, mul_one]
  rfl

end BackwardRows.ReadsExactly

/-- The gradients of all rows, in numbers. -/
theorem BackwardRows.ReadsExactly.rows_eq [IsStrictOrderedRing K] {l : Layout}
    {r : BackwardRows (Extended K)} {x : ExactRows K} {c : K} {causal : Bool}
    {gradient : Nat → List K} (h : r.ReadsExactly l x c causal gradient) :
    r.queryRows l (of c) causal = numberTable of l.heads l.queries l.depth
        ((l.exactNumbers x c causal gradient).queryGradient (l.exactProblem c causal)) ∧
      r.keyRows l (of c) causal = numberTable of l.heads l.keys l.depth
        ((l.exactNumbers x c causal gradient).keyGradient (l.exactProblem c causal)) ∧
      r.valueRows l (of c) causal = numberTable of l.heads l.keys l.valueDepth
        ((l.exactNumbers x c causal gradient).valueGradient (l.exactProblem c causal)) :=
  ⟨table_congr fun _ hhead _ hi => h.queryRow_eq hhead hi,
    table_congr fun _ hhead _ hj => h.keyRow_eq hhead hj,
    table_congr fun _ hhead _ hj => h.valueRow_eq hhead hj⟩

/-- Operands that hold numbers, and the results of the forward part, are read as numbers. -/
theorem Layout.Describes.readsExactly {l : Layout} {outer inner : Nat}
    (input : FlashBackwardInput (Extended K))
    (h : l.Describes outer inner input.q.type input.k.type input.v.type) {ds qs ks vs : List K}
    (hdOut : input.dOut.elements = ds.map of) (hq : input.q.elements = qs.map of)
    (hk : input.k.elements = ks.map of) (hv : input.v.elements = vs.map of)
    (hsize : l.heads * l.queries * l.valueDepth = input.dOut.type.numElements) {c : K}
    {causal : Bool} (hout : input.out.elements = (l.meanRows
      (ExactRows.ofElements l.depth l.valueDepth qs ks vs) c causal).flatten.map of)
    (hlse : input.lse.elements = l.logSums
      (ExactRows.ofElements l.depth l.valueDepth qs ks vs) c causal) :
    (BackwardRows.ofInput l input).ReadsExactly l
      (ExactRows.ofElements l.depth l.valueDepth qs ks vs) c causal (rowOf ds l.valueDepth) where
  sized := ExactRows.sized_ofElements (p := l.exactProblem c causal) hq hk hv h.queryElements
    h.keyElements h.valueElements
  dOut row hrow := by
    refine (values_asRows _ _ _).trans ?_
    rw [hdOut, rowOf_map]
    exact map_eq_numberRow of (ExactRows.row_asRows hdOut hsize hrow).2
  query row _ := (values_asRows _ _ _).trans (hq ▸ rowOf_map ..)
  key row _ := (values_asRows _ _ _).trans (hk ▸ rowOf_map ..)
  value row _ := (values_asRows _ _ _).trans (hv ▸ rowOf_map ..)
  out head hhead i hi := by
    refine (values_asRows _ _ _).trans ?_
    rw [hout, rowOf_map]
    refine congrArg _ (rowOf_table
      (f := fun head i => meanRow l.valueDepth (l.seen _ c causal head i))
      (fun head hhead i _ => length_meanRow fun e he => ?_) hhead hi)
    obtain ⟨j, hj, rfl⟩ := List.mem_map.1 he
    have hj : j < l.keys := Nat.lt_of_lt_of_le (List.mem_range.1 hj) (l.visible_le i causal)
    exact (ExactRows.row_asRows hv h.valueElements (index_lt hhead hj)).2
  lse head hhead i hi := by
    refine (values_asRows _ _ _).trans ?_
    rw [hlse]
    exact rowOf_one (l.getElem?_logSums _ c causal hhead hi)

namespace Layout.Describes

variable {l : Layout} {outer inner : Nat} {dOut q k v : Tensor (Extended K)}
  (h : l.Describes outer inner q.type k.type v.type)
include h

omit [Field K] [LinearOrder K] [ExactScalars K] in
/-- The gradient of the output has the sizes of a call. -/
theorem hasAxes_incoming (hdims : dOut.type.dims = q.type.dims.take 3 ++ [l.valueDepth]) :
    dOut.type.HasAxes [outer, inner] l.queries l.valueDepth := by
  rw [show q.type.dims = _ from h.query] at hdims
  exact hdims

omit [Field K] [LinearOrder K] [ExactScalars K] in
theorem incomingElements (hdims : dOut.type.dims = q.type.dims.take 3 ++ [l.valueDepth]) :
    l.heads * l.queries * l.valueDepth = dOut.type.numElements := by
  rw [(h.hasAxes_incoming hdims).numElements, h.heads_mul]

/-- The backward part accepts the results of the forward part. -/
theorem backwardLayout_results {primary auxiliary : Tensor (Extended K)}
    {outputs logs : List (Extended K)} (hlayout : layout q k v = .ok l)
    (hdense : dOut.isContiguous = true)
    (hdims : dOut.type.dims = q.type.dims.take 3 ++ [l.valueDepth])
    (hprimary : Tensor.ofElements
      (q.type.withShape ⟨[outer, inner] ++ [l.queries, l.valueDepth]⟩) outputs.toArray =
        .ok primary)
    (hauxiliary : Tensor.ofElements ⟨⟨[outer, inner, l.queries]⟩, .f32, q.type.device⟩
      logs.toArray = .ok auxiliary) :
    backwardLayout ⟨dOut, q, k, v, primary, auxiliary⟩ = .ok l := by
  obtain ⟨hprimaryType, -, hprimaryDense⟩ := Tensor.of_ofElements_eq_ok hprimary
  obtain ⟨hauxiliaryType, -, hauxiliaryDense⟩ := Tensor.of_ofElements_eq_ok hauxiliary
  refine h.backwardLayout_of_dense (x := ⟨dOut, q, k, v, primary, auxiliary⟩) hlayout
    (h.hasAxes_incoming hdims) ?_ ?_ hdense hprimaryDense hauxiliaryDense
  · rw [hprimaryType]
    exact (congrArg Shape.mk (h.hasAxes_incoming hdims)).symm
  · rw [hauxiliaryType]
    rfl

/-- The reference implementation has these gradients, once its buffers exist. -/
theorem operandGradients_eq {ds qs ks vs : List K} (hd : dOut.elements = ds.map of)
    (hq : q.elements = qs.map of) (hk : k.elements = ks.map of) (hv : v.elements = vs.map of)
    (hsize : l.heads * l.queries * l.valueDepth = dOut.type.numElements)
    (hdense : dOut.isContiguous = true) {args : Operands (Tensor (Extended K))}
    (hincoming : args.optional 0 = some dOut) {c : K} {causal : Bool} {seed : Int64}
    (hposed : (l.problem (of c) causal (of 0) seed).PosedExactly (Problem.forwardOperands args)
      q k v (ExactRows.ofElements l.depth l.valueDepth qs ks vs) c) {dq dk dv : Tensor (Extended K)}
    {y : CallNumbers K} (hy : y = l.exactNumbers
      (ExactRows.ofElements l.depth l.valueDepth qs ks vs) c causal (rowOf ds l.valueDepth))
    (hdq : Tensor.ofElements q.type (numberTable of l.heads l.queries l.depth
      (y.queryGradient (l.exactProblem c causal))).flatten.toArray = .ok dq)
    (hdk : Tensor.ofElements k.type (numberTable of l.heads l.keys l.depth
      (y.keyGradient (l.exactProblem c causal))).flatten.toArray = .ok dk)
    (hdv : Tensor.ofElements v.type (numberTable of l.heads l.keys l.valueDepth
      (y.valueGradient (l.exactProblem c causal))).flatten.toArray = .ok dv) :
    Problem.operandGradients args = (do
      reserve (l.heads * l.queries * l.keys)
      reserve (l.heads * l.queries * l.depth)
      reserve (l.heads * l.keys * l.depth)
      reserve (l.heads * l.keys * l.valueDepth)
      reserve l.keys
      return [dq, dk, dv]) := by
  have hsized := ExactRows.sized_ofElements (p := l.problem (of c) causal (of 0) seed) hq hk hv
    h.queryElements h.keyElements h.valueElements
  obtain ⟨dq', dk', dv', hdq', hdk', hdv', hgradients⟩ := (hposed.posedInNumbers hsized hincoming
    hdense hsize (fun r hr => (ExactRows.row_asRows hd hsize hr).1)
    (fun r hr => (ExactRows.row_asRows hd hsize hr).2) h.queryElements
    h.valueElements).exists_gradients isNumbers_of
  subst hy
  obtain rfl := Except.ok.inj (hdq'.symm.trans hdq)
  obtain rfl := Except.ok.inj (hdk'.symm.trans hdk)
  obtain rfl := Except.ok.inj (hdv'.symm.trans hdv)
  rw [hgradients, hposed.checkProbabilities_eq]
  simp only [Problem.reserveGradients, bind_assoc]
  rfl

end Layout.Describes

variable [IsStrictOrderedRing K]

/-- On operands that hold numbers, without mask and dropout, and on the results of its forward part,
the gradients of the fused kernel are those of the reference implementation once they are cut back.
Neither the size of the blocks nor the alignment makes a difference; they only decide which buffers
have to exist. -/
theorem backward_eq_attention {dOut q k v : Tensor (Extended K)} {l : Layout}
    {ds qs ks vs : List K} (hlayout : layout q k v = .ok l) (hdOut : dOut.elements = ds.map of)
    (hq : q.elements = qs.map of) (hk : k.elements = ks.map of) (hv : v.elements = vs.map of)
    (hdense : dOut.isContiguous = true)
    (hdims : dOut.type.dims = q.type.dims.take 3 ++ [l.valueDepth])
    {args : Operands (Tensor (Extended K))} (hincoming : args.optional 0 = some dOut)
    (hquery : args.optional 1 = some q) (hkey : args.optional 2 = some k)
    (hvalue : args.optional 3 = some v) (hmask : args.optional 4 = none) {causal : Bool}
    {scale : Option Float} {seed : Int64} (hattrs : Settled args.attrs 0 causal scale seed) {c : K}
    (hscale : number (scale.getD (1.0 / (Float.ofNat l.depth).sqrt)) = c) :
    ∃ primary auxiliary dq dk dv : Tensor (Extended K),
      (∀ (config : FlashConfig) (blockSize : Nat) (probe : Bool),
        (reference config blockSize probe).forward q k v (of c) causal = (do
          l.reserveForward (max blockSize 1)
          return ⟨primary, auxiliary⟩)) ∧
      (∀ (config : FlashConfig) (blockSize : Nat) (probe : Bool), (do
        let g ← (reference config blockSize probe).backward ⟨dOut, q, k, v, primary, auxiliary⟩
          (of c) causal
        return [← unpad g.dq q, ← unpad g.dk k, ← unpad g.dv v]) = (do
          l.reserveBackward config.headDimAlignment
          return [dq, dk, dv])) ∧
      Attention.backwardOperator.compute args = (do
        reserve (l.heads * l.queries * l.keys)
        reserve (l.heads * l.queries * l.depth)
        reserve (l.heads * l.keys * l.depth)
        reserve (l.heads * l.keys * l.valueDepth)
        reserve l.keys
        return [dq, dk, dv]) := by
  obtain ⟨hqDense, hkDense, hvDense, outer, inner, h⟩ := exists_describes hlayout
  have hsize := h.incomingElements hdims
  have hrows := ExactRows.readFrom_ofElements hq hk hv h.queryElements h.keyElements
    h.valueElements
  have hproblem := h.ofOperands_eq (show (Problem.forwardOperands args).optional 0 = some q from
    hquery) hkey hvalue hattrs
  rw [ofFloat_eq, ofFloat_eq, hscale, number_zero] at hproblem
  have hposed : (l.problem (of c) causal (of 0) seed).PosedExactly (Problem.forwardOperands args)
      q k v _ c :=
    ⟨hproblem, hquery, hkey, hvalue, hmask, hqDense, hkDense, hvDense, h.keyElements, hrows, rfl,
      rfl⟩
  obtain ⟨primary, auxiliary, hprimary, hauxiliary, -, helements⟩ :=
    h.exists_results hrows c causal
  have hlayout' := h.backwardLayout_results hlayout hdense hdims hprimary hauxiliary
  have hreads := h.readsExactly ⟨dOut, q, k, v, primary, auxiliary⟩ hdOut hq hk hv hsize
    (ExactRows.elements_ofElements hprimary) helements
  obtain ⟨dq, dk, dv, hdq, hdk, hdv, hunpad⟩ := exists_unpadded hlayout' (of c) causal
  refine ⟨primary, auxiliary, dq, dk, dv, fun config blockSize probe => ?_,
    fun config blockSize probe => ?_, ?_⟩
  · simp only [reference, hlayout, ok_bind, h.forward_eq hlayout hrows, hprimary, hauxiliary]
  · obtain ⟨g, hg, hgdq, hgdk, hgdv⟩ := hunpad config.headDimAlignment
    simp only [reference, hlayout', ok_bind, hg, bind_assoc, hgdq, hgdk, hgdv]
  · obtain ⟨hqueries, hkeys, hvalues⟩ := hreads.rows_eq
    rw [hqueries] at hdq
    rw [hkeys] at hdk
    rw [hvalues] at hdv
    exact h.operandGradients_eq hdOut hq hk hv hsize hdense hincoming hposed rfl hdq hdk hdv

/-- The gradients of a call of attention on two queries and two keys, under a causal mask. -/
noncomputable def causalPairGradient : Operands (Tensor (Extended ℝ)) where
  op := "sdpa_backward"
  tensors := [some (pairOf 1 (-1)), some (pairOf 0 1), some (pairOf 0 1), some (pairOf 1 0)]
  attrs := AttentionOptions.attrs ⟨0, true, some 1, 0⟩

/-- Gradients that are padded to eight columns are cut back to the one column of the operands. -/
theorem backward_eq_attention_causalPair : ∃ primary auxiliary dq dk dv : Tensor (Extended ℝ),
    (reference .standard 2 true).forward (pairOf 0 1) (pairOf 0 1) (pairOf 1 0) (of 1) true =
      .ok ⟨primary, auxiliary⟩ ∧
    (do
      let g ← (reference .standard 1 true).backward
        ⟨pairOf 1 (-1), pairOf 0 1, pairOf 0 1, pairOf 1 0, primary, auxiliary⟩ (of 1) true
      return [← unpad g.dq (pairOf 0 1), ← unpad g.dk (pairOf 0 1), ← unpad g.dv (pairOf 1 0)]) =
        .ok [dq, dk, dv] ∧
    Attention.backwardOperator.compute causalPairGradient = .ok [dq, dk, dv] := by
  obtain ⟨primary, auxiliary, dq, dk, dv, hforward, hbackward, hcompute⟩ :=
    backward_eq_attention (l := ⟨1, 2, 2, 1, 1⟩) rfl (elements_pairOf 1 (-1)) (elements_pairOf 0 1)
      (elements_pairOf 0 1) (elements_pairOf 1 0) rfl rfl
      (rfl : causalPairGradient.optional 0 = _) rfl rfl rfl rfl
      (⟨rfl, rfl, rfl, rfl⟩ : Settled _ 0 true (some 1) 0) number_one
  exact ⟨primary, auxiliary, dq, dk, dv, hforward .standard 2 true, hbackward .standard 1 true,
    hcompute⟩

end Flash

end TraceSubstitution
