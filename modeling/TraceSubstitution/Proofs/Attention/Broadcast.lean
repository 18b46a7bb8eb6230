import TraceSubstitution.Attention.Operators
import TraceSubstitution.Proofs.Attention.Output
import TraceSubstitution.Scalar.Single

/-!
# A mask is aligned with the scores from the right

The scores of an attention call are laid out by batch entry, query and key, and the
batch entries by the leading axes (`Attention.Problem.ordinal_score`). A mask is read
for all of them before they are computed, so it adds to the score of a query and a key
its value at the index of the score, for any number of leading axes
(`Attention.Problem.mask_aligned`).
-/

namespace TraceSubstitution

namespace Attention

namespace Problem

variable {α : Type} [Scalar α] {p : Problem α} {args : Operands (Tensor α)} {q k mask : Tensor α}
  {strides : List Nat}

/-- A problem is posed by three operands, the first of which has rows. -/
theorem operands_of_ofOperands (h : ofOperands args = .ok p) :
    ∃ q k v, args.optional 0 = some q ∧ args.optional 1 = some k ∧ args.optional 2 = some v ∧
      2 ≤ q.type.rank := by
  unfold ofOperands at h
  obtain ⟨q, hq, h⟩ := bind_eq_ok_iff.1 h
  obtain ⟨k, hk, h⟩ := bind_eq_ok_iff.1 h
  obtain ⟨v, hv, h⟩ := bind_eq_ok_iff.1 h
  obtain ⟨depth, -, h⟩ := bind_eq_ok_iff.1 h
  split at h
  · exact nomatch h
  · next hrank =>
    exact ⟨q, k, v, Operands.tensor_eq_ok_iff.1 hq, Operands.tensor_eq_ok_iff.1 hk,
      Operands.tensor_eq_ok_iff.1 hv, Nat.not_lt.1 hrank⟩

/-- The scores have the leading axes of the queries, and then those of queries and keys. -/
theorem scoreDims_of_ofOperands (h : ofOperands args = .ok p) (hq : args.optional 0 = some q)
    (hk : args.optional 1 = some k) : p.batch = volume (q.type.dims.take (q.type.rank - 2)) ∧
      scoreDims q.type k.type =
        .ok (q.type.dims.take (q.type.rank - 2) ++ [p.queries, p.keys]) := by
  obtain ⟨q', _, v, hq', -, hv, hrank⟩ := operands_of_ofOperands h
  obtain rfl : q' = q := Option.some.inj (hq'.symm.trans hq)
  obtain ⟨hbatch, hqueries, hkeys, -, -⟩ := sizes_of_ofOperands h hq hk hv
  refine ⟨hbatch, ?_⟩
  have hlead : q'.type.rank - 1 = q'.type.rank - 2 + 1 := by omega
  unfold scoreDims
  rw [if_neg (Nat.not_lt.2 hrank), Require.dim_eq_ok_iff.2 hkeys, hlead, List.take_add_one,
    hqueries]
  simp

/-- The probabilities when `entry b i j` is added to the score of query `i` and key `j` of batch
entry `b`. -/
def maskedProbabilities (p : Problem α) (q k : Rows α) (entry : Nat → Nat → Nat → α) :
    Except Failure (List (List (List α))) :=
  (List.range p.batch).mapM fun b => (List.range p.queries).mapM fun i => do
    let query ← q.row (b * p.queries + i)
    return softmax (← (List.range p.keys).mapM fun j => do
      if p.causal && i < j then return Scalar.lowest
      else return Scalar.dot query (← k.row (b * p.keys + j)) * p.scale + entry b i j)

/-- The probabilities read the values of a mask by batch entry, query and key. -/
theorem probabilities_of_maskValues (hq : args.optional 0 = some q) (hk : args.optional 1 = some k)
    {values : Array α} (hvalues : maskValues args = .ok (some values))
    (hsize : values.size = p.batch * p.queries * p.keys) : p.probabilities args = (do
      p.maskedProbabilities (← q.rows p.depth) (← k.rows p.depth)
        fun b i j => values.getD ((b * p.queries + i) * p.keys + j) Scalar.zero) := by
  have hscore {k : Rows α} {b i j : Nat} (hb : b < p.batch) (hi : i < p.queries) (hj : j < p.keys)
      (query : List α) : p.score k (some values) b i query j = (do
        if p.causal && i < j then return Scalar.lowest
        else return Scalar.dot query (← k.row (b * p.keys + j)) * p.scale +
          values.getD ((b * p.queries + i) * p.keys + j) Scalar.zero) := by
    have hlt : (b * p.queries + i) * p.keys + j < values.size := by
      rw [hsize]
      exact index_lt (index_lt hb hi) hj
    unfold score
    simp [Array.getElem?_eq_getElem hlt, Array.getD_eq_getD_getElem?]
  unfold probabilities maskedProbabilities
  rw [Operands.tensor_eq_ok_iff.2 hq, Operands.tensor_eq_ok_iff.2 hk, hvalues]
  simp only [ok_bind]
  refine congrArg _ (funext fun q => congrArg _ (funext fun k => ?_))
  refine mapM_congr fun b hb => mapM_congr fun i hi => ?_
  unfold probabilityRow
  refine congrArg _ (funext fun query => ?_)
  rw [mapM_congr fun j hj => hscore (List.mem_range.1 hb) (List.mem_range.1 hi)
    (List.mem_range.1 hj) query]

/-- A score lies in the values of a mask where its index lies among those of all scores. -/
theorem ordinal_score {batch index : List Nat} (h : Inside index batch) (queries keys i j : Nat) :
    ordinal (batch ++ [queries, keys]) (index ++ [i, j]) =
      (ordinal batch index * queries + i) * keys + j := by
  rw [ordinal_append h.length_eq]
  simp [Nat.add_mul, Nat.mul_assoc, Nat.add_assoc]

/-- A mask is aligned with the scores from the right. It is accepted exactly if it has no more axes
than the scores and each of its axes, counted from the right, is as long as theirs or of size one.
Its values for the scores are then read without leaving the buffer, one for every score and in
row-major order: each is that of the mask at the index of the score without the leading axes, and
with zero along the axes of size one. So what an accepted mask adds to a score of an attention call,
for any leading axes, is its value at the index of the score. -/
theorem mask_aligned {source target : List Nat} (hsource : source ≠ []) :
    ((∃ strides, broadcastStrides source target = .ok strides) ↔ Aligned source target) ∧
    (∀ strides (data : Array α), broadcastStrides source target = .ok strides →
      data.size = volume source → ∃ values, broadcast data target strides = .ok values ∧
        readWalk data target strides 0 = .ok values ∧ values.length = volume target ∧
        ∀ index, Inside index target → Inside (maskIndex source index) source ∧
          ∃ x, values[ordinal target index]? = some x ∧
            data[ordinal source (maskIndex source index)]? = some x) ∧
    ∀ (p : Problem α) (args : Operands (Tensor α)) (q k mask : Tensor α) (strides : List Nat),
      ofOperands args = .ok p → args.optional 0 = some q → args.optional 1 = some k →
      args.optional 3 = some mask → mask.isContiguous = true →
      maskStrides q.type k.type mask.type = .ok strides →
        ∃ entry : Nat → Nat → Nat → α,
          p.probabilities args = (do
            p.maskedProbabilities (← q.rows p.depth) (← k.rows p.depth) entry) ∧
          ∀ b < p.batch, ∀ i < p.queries, ∀ j < p.keys,
            ∃ index, Inside index (q.type.dims.take (q.type.rank - 2)) ∧
              ordinal (q.type.dims.take (q.type.rank - 2)) index = b ∧
              mask.elements[ordinal mask.type.dims (maskIndex mask.type.dims (index ++ [i, j]))]? =
                some (entry b i j) := by
  refine ⟨exists_broadcastStrides_iff hsource, fun strides data hstrides hdata => ?_,
    fun p args q k mask strides hp hq hk hmask hdense hstrides => ?_⟩
  · obtain ⟨values, hvalues, hlength⟩ := returns_iff.1 (returns_broadcast hstrides hdata)
    have hwalk : broadcast data target strides = readWalk data target strides 0 :=
      broadcast_eq_readWalk (length_broadcastStrides hstrides)
    refine ⟨values, hvalues, hwalk ▸ hvalues, hlength, fun index hindex => ?_⟩
    have hentry := getElem?_broadcast hstrides hvalues hindex
    have hsome := List.getElem?_eq_getElem (hlength ▸ ordinal_lt hindex)
    exact ⟨(shift_broadcastStrides hstrides hindex).1, _, hsome, hentry ▸ hsome⟩
  · obtain ⟨hbatch, htarget⟩ := scoreDims_of_ofOperands hp hq hk
    obtain ⟨hsteps, values, hvalues, hlength, hbroadcast⟩ :=
      exists_maskValues hq hk hmask hdense htarget hstrides
    have hsize : values.toArray.size = p.batch * p.queries * p.keys := by
      rw [List.size_toArray, hlength, hbatch, volume_append]
      simp [Nat.mul_assoc]
    refine ⟨_, probabilities_of_maskValues hq hk hvalues hsize, fun b hb i hi j hj => ?_⟩
    obtain ⟨index, hindex, rfl⟩ := exists_ordinal_eq (hbatch ▸ hb)
    refine ⟨index, hindex, rfl, ?_⟩
    have hinside : Inside (index ++ [i, j]) (q.type.dims.take (q.type.rank - 2) ++
        [p.queries, p.keys]) := List.rel_append hindex (.cons hi (.cons hj .nil))
    have hlt : (ordinal (q.type.dims.take (q.type.rank - 2)) index * p.queries + i) * p.keys + j <
        values.toArray.size := by
      rw [hsize]
      exact index_lt (index_lt hb hi) hj
    have hentry := getElem?_broadcast hsteps hbroadcast hinside
    rw [ordinal_score hindex, List.getElem?_toArray] at hentry
    rw [← hentry, Array.getD_eq_getD_getElem?, Array.getElem?_eq_getElem hlt, Option.getD_some,
      ← List.getElem?_toArray, Array.getElem?_eq_getElem hlt]

/-- A mask for three keys, by the second of two batch axes. -/
def keyMask : Tensor Float32 := .dense ⟨⟨[2, 1, 3]⟩, .f32, .host⟩ #[0, 1, 2, 3, 4, 5] rfl

/-- Two queries and three keys with two batch axes, and a mask that the first of these axes and the
queries share. -/
def sharedMask : Operands (Tensor Float32) where
  op := "scaled_dot_product_attention"
  tensors := [some (.zeros ⟨⟨[2, 2, 2, 1]⟩, .f32, .host⟩),
    some (.zeros ⟨⟨[2, 2, 3, 1]⟩, .f32, .host⟩), some (.zeros ⟨⟨[2, 2, 3, 1]⟩, .f32, .host⟩),
    some keyMask]
  attrs := AttentionOptions.attrs ⟨0, false, none, 0⟩

/-- The last query and key of batch entries one and two: the index of the former entry is `[0, 1]`,
and that of the latter is `[1, 0]`. -/
theorem mask_aligned_shared : ∃ (p : Problem Float32) (entry : Nat → Nat → Nat → Float32),
    ofOperands sharedMask = .ok p ∧
    p.probabilities sharedMask =
      p.maskedProbabilities ⟨.replicate 8 0, 1⟩ ⟨.replicate 12 0, 1⟩ entry ∧
    entry 1 1 2 = 5 ∧ entry 2 1 2 = 2 := by
  obtain ⟨p, hp, hbatch, hqueries, hkeys, hdepth⟩ : ∃ p : Problem Float32,
      ofOperands sharedMask = .ok p ∧ p.batch = 4 ∧ p.queries = 2 ∧ p.keys = 3 ∧ p.depth = 1 :=
    ⟨_, rfl, rfl, rfl, rfl, rfl⟩
  obtain ⟨-, -, hprobabilities⟩ := @mask_aligned Float32 _ [2, 1, 3] [2, 2, 2, 3] (by decide)
  obtain ⟨entry, hprobabilities, hentry⟩ := hprobabilities p sharedMask _ _ keyMask [0, 3, 0, 1]
    hp rfl rfl rfl (by decide) (by rfl)
  rw [hdepth] at hprobabilities
  have helements : keyMask.elements = [0, 1, 2, 3, 4, 5] := Tensor.elements_dense ..
  have hlast {x y : Nat} (hx : x < 2) (hy : y < 2) :
      some (entry (x * 2 + y) 1 2) = ([0, 1, 2, 3, 4, 5] : List Float32)[y * 3 + 2]? := by
    obtain ⟨index, hindex, hordinal, hvalue⟩ :=
      hentry (x * 2 + y) (by omega) 1 (by omega) 2 (by omega)
    obtain rfl : index = [x, y] := by
      match index, hindex with
      | [x', y'], .cons hx' (.cons hy' .nil) =>
        have hordinal : x' * 2 + (y' * 1 + 0) = x * 2 + y := hordinal
        obtain ⟨rfl, rfl⟩ : x' = x ∧ y' = y := by omega
        rfl
    rw [← hvalue, helements]
    rfl
  have hfirst : some (entry 1 1 2) = some 5 := hlast (x := 0) (y := 1) (by omega) (by omega)
  have hsecond : some (entry 2 1 2) = some 2 := hlast (x := 1) (y := 0) (by omega) (by omega)
  exact ⟨p, entry, hp, hprobabilities, Option.some.inj hfirst, Option.some.inj hsecond⟩

end Problem

end Attention

end TraceSubstitution
