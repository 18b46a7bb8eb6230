import Mathlib.Tactic.Ring
import TraceSubstitution.Proofs.Attention.Contract
import TraceSubstitution.Proofs.Attention.Differential
import TraceSubstitution.Proofs.Scalar.Exact

/-!
# The gradients of attention are the adjoint of its differential

When queries, keys and values change, the scores change with them, the probabilities
follow by the differential of the softmax, and so does the output. The gradients say
by how much the output changes in the direction of the gradient that flows in: the
product of that gradient and the change of the output is the sum of the products of
the gradients and the changes (`backward_adjoint`). This is an identity of a
commutative ring; what the probabilities are does not matter.
-/

namespace TraceSubstitution

namespace Tensor

variable {R : Type} [CommRing R]

/-- The entry in a column of a row of a tensor whose rows have a width. -/
def entry (t : Tensor R) (width r c : Nat) : R :=
  t.elements.getD (r * width + c) 0

/-- The sum of the products of the entries of a tensor and other numbers. -/
def pairing (t : Tensor R) (blocks n width : Nat)
    (f : Nat → Nat → Nat → R) : R :=
  ∑ b ∈ Finset.range blocks, ∑ i ∈ Finset.range n, ∑ c ∈ Finset.range width,
    t.entry width (b * n + i) c * f b i c

end Tensor

namespace Attention

section

variable {R : Type} [CommRing R]

/-- The differential of the softmax is symmetric. -/
theorem sum_centered_comm (n : Nat) (p a d : Nat → R) :
    ∑ j ∈ Finset.range n, p j * (a j - ∑ l ∈ Finset.range n, p l * a l) * d j =
      ∑ j ∈ Finset.range n, p j * (d j - ∑ l ∈ Finset.range n, p l * d l) * a j := by
  -- The sum without its mean is symmetric, and so is the product of the two means.
  have hsplit : ∀ (a d : Nat → R) (t : R), ∑ j ∈ Finset.range n, p j * (a j - t) * d j =
      ∑ j ∈ Finset.range n, p j * a j * d j - t * ∑ j ∈ Finset.range n, p j * d j := by
    intro a d t
    rw [Finset.mul_sum, ← Finset.sum_sub_distrib]
    exact Finset.sum_congr rfl fun j _ => by ring
  have hcomm : ∑ j ∈ Finset.range n, p j * a j * d j = ∑ j ∈ Finset.range n, p j * d j * a j :=
    Finset.sum_congr rfl fun j _ => by ring
  rw [hsplit, hsplit, hcomm, mul_comm]

/-- Changes of queries, keys and values, by batch entry, row and column. -/
structure Change (R : Type) where
  /-- The changes of the queries. -/
  query : Nat → Nat → Nat → R
  /-- The changes of the keys. -/
  key : Nat → Nat → Nat → R
  /-- The changes of the values. -/
  value : Nat → Nat → Nat → R

namespace CallNumbers

variable {α : Type} (x : CallNumbers R) (p : Problem α) (e : Change R) (b : Nat)

/-- How a score changes. -/
def scoreChange (i j : Nat) : R :=
  x.scale * (∑ c ∈ Finset.range p.depth, e.query b i c * x.key (b * p.keys + j) c +
    ∑ c ∈ Finset.range p.depth, x.query (b * p.queries + i) c * e.key b j c)

/-- How a probability changes. -/
def probabilityChange (i j : Nat) : R :=
  x.probability b i j * (x.scoreChange p e b i j -
    ∑ l ∈ Finset.range p.keys, x.probability b i l * x.scoreChange p e b i l)

/-- How an entry of the output changes. -/
def outputChange (i c : Nat) : R :=
  ∑ j ∈ Finset.range p.keys,
    (x.probabilityChange p e b i j * x.factor b i j * x.value (b * p.keys + j) c +
      x.probability b i j * x.factor b i j * e.value b j c)

/-- The changes of the probabilities of a query, in the direction of their gradients. -/
theorem sum_probabilityChange (i : Nat) :
    ∑ j ∈ Finset.range p.keys, x.probabilityChange p e b i j * x.weightGradient p b i j =
      ∑ c ∈ Finset.range p.depth, x.queryGradient p b i c * e.query b i c +
        ∑ j ∈ Finset.range p.keys, x.scoreGradient p b i j *
          ∑ c ∈ Finset.range p.depth, x.query (b * p.queries + i) c * e.key b j c := by
  calc ∑ j ∈ Finset.range p.keys, x.probabilityChange p e b i j * x.weightGradient p b i j
      = ∑ j ∈ Finset.range p.keys, x.probability b i j * (x.weightGradient p b i j -
          ∑ l ∈ Finset.range p.keys, x.probability b i l * x.weightGradient p b i l) *
            x.scoreChange p e b i j := sum_centered_comm ..
    _ = ∑ j ∈ Finset.range p.keys, (x.scoreGradient p b i j *
          ∑ c ∈ Finset.range p.depth, x.key (b * p.keys + j) c * e.query b i c +
            x.scoreGradient p b i j *
              ∑ c ∈ Finset.range p.depth, x.query (b * p.queries + i) c * e.key b j c) := by
        refine Finset.sum_congr rfl fun j _ => ?_
        simp only [scoreChange, scoreGradient, mul_comm (e.query b i _)]
        ring
    _ = _ := by
        rw [Finset.sum_add_distrib, sum_mul_sum_comm]
        rfl

/-- The change of the output of a query, in the direction of its gradient. -/
theorem sum_outputChange (i : Nat) :
    ∑ c ∈ Finset.range p.valueDepth, x.dOut (b * p.queries + i) c * x.outputChange p e b i c =
      ∑ c ∈ Finset.range p.depth, x.queryGradient p b i c * e.query b i c +
        ∑ j ∈ Finset.range p.keys, x.scoreGradient p b i j *
          ∑ c ∈ Finset.range p.depth, x.query (b * p.queries + i) c * e.key b j c +
        ∑ j ∈ Finset.range p.keys, x.probability b i j * x.factor b i j *
          ∑ c ∈ Finset.range p.valueDepth, x.dOut (b * p.queries + i) c * e.value b j c := by
  rw [← x.sum_probabilityChange p e b i]
  simp only [outputChange, weightGradient, Finset.mul_sum, Finset.sum_mul, mul_add,
    Finset.sum_add_distrib]
  congr 1 <;> rw [Finset.sum_comm] <;>
    exact Finset.sum_congr rfl fun j _ => Finset.sum_congr rfl fun c _ => by ring

/-- Sums over all queries, gathered by key and column. -/
theorem sum_queries_comm (m n width : Nat) (s f : Nat → Nat → R) (g : Nat → Nat → R) :
    ∑ i ∈ Finset.range m, ∑ j ∈ Finset.range n, s i j *
      ∑ c ∈ Finset.range width, f i c * g j c =
        ∑ j ∈ Finset.range n, ∑ c ∈ Finset.range width,
          (∑ i ∈ Finset.range m, s i j * f i c) * g j c := by
  rw [Finset.sum_comm]
  exact Finset.sum_congr rfl fun j _ => sum_mul_sum_comm m width (s · j) f (g j)

/-- The change of the output of a batch entry, in the direction of its gradient, is that of the
operands in the direction of theirs. -/
theorem adjoint_entry :
    ∑ i ∈ Finset.range p.queries, ∑ c ∈ Finset.range p.valueDepth,
      x.dOut (b * p.queries + i) c * x.outputChange p e b i c =
    ∑ i ∈ Finset.range p.queries, ∑ c ∈ Finset.range p.depth,
      x.queryGradient p b i c * e.query b i c +
    ∑ j ∈ Finset.range p.keys, ∑ c ∈ Finset.range p.depth,
      x.keyGradient p b j c * e.key b j c +
    ∑ j ∈ Finset.range p.keys, ∑ c ∈ Finset.range p.valueDepth,
      x.valueGradient p b j c * e.value b j c := by
  simp only [sum_outputChange, Finset.sum_add_distrib]
  rw [sum_queries_comm, sum_queries_comm]
  rfl

end CallNumbers

/-- An entry of a list by batch entry, query and key. -/
def stackEntry (xs : List (List (List R))) (b i j : Nat) : R :=
  ((xs.getD b []).getD i []).getD j 0

namespace CallNumbers

/-- The numbers of a call of the backward operator. Without dropout all factors are one. -/
def ofCall (p : Problem R) (d q k v : Tensor R) (probabilities : List (List (List R)))
    (factors : Option (List (List (List R)))) : CallNumbers R where
  dOut := d.entry p.valueDepth
  query := q.entry p.depth
  key := k.entry p.depth
  value := v.entry p.valueDepth
  probability := stackEntry probabilities
  factor b i j := (factors.map fun xs => stackEntry xs b i j).getD 1
  scale := p.scale

/-- However queries, keys and values change, the change of the output in the direction of `d` is the
sum of their changes in the directions of `dq`, `dk` and `dv`. -/
def IsAdjoint {α : Type} (x : CallNumbers R) (p : Problem α) (d dq dk dv : Tensor R) : Prop :=
  ∀ e : Change R, d.pairing p.batch p.queries p.valueDepth (x.outputChange p e) =
    dq.pairing p.batch p.queries p.depth e.query + dk.pairing p.batch p.keys p.depth e.key +
      dv.pairing p.batch p.keys p.valueDepth e.value

end CallNumbers

theorem getD_mem {β : Type} {xs : List β} {i : Nat} (h : i < xs.length) (a : β) :
    xs.getD i a ∈ xs := by
  rw [List.getD_eq_getElem?_getD, List.getElem?_eq_getElem h]
  exact List.getElem_mem h

/-- A list by batch entry, query and key holds its entries. -/
theorem eq_numberStack {α : Type} {p : Problem α} {xs : List (List (List R))}
    (h : IsStack p.batch p.queries p.keys xs) : xs = numberStack id p (stackEntry xs) := by
  refine (eq_map_range_getD h.length []).trans (List.map_congr_left fun b hb => ?_)
  have hgrid := h.grid _ (getD_mem (h.length ▸ List.mem_range.1 hb) [])
  refine (eq_map_range_getD hgrid.length []).trans (List.map_congr_left fun i hi => ?_)
  have hrow := hgrid.width _ (getD_mem (hgrid.length ▸ List.mem_range.1 hi) [])
  exact eq_map_range_getD hrow 0

/-- The rows of a tensor hold its entries. -/
theorem row_eq_numberRow {t : Tensor R} {count width : Nat}
    (h : count * width = t.type.numElements) {r : Nat} (hr : r < count) :
    (t.contiguous.asRows width).row r = .ok (numberRow id width (t.entry width r)) := by
  have hholds : (t.contiguous.asRows width).Holds count :=
    Tensor.holds_asRows (h.trans (by rw [Tensor.type_contiguous]))
  have hentry : ∀ c < width, (rowOf t.elements width r).getD c 0 = t.entry width r c := by
    intro c hc
    unfold Tensor.entry
    rw [List.getD_eq_getElem?_getD, List.getD_eq_getElem?_getD, getElem?_rowOf _ hc]
  have hlength := hholds.length_values hr
  rw [hholds.row_eq_ok hr]
  rw [values_asRows, Tensor.elements_contiguous] at hlength ⊢
  exact congrArg _ ((eq_map_range_getD hlength 0).trans (numberRow_congr id hentry))

end

section

variable {R : Type} [CommRing R] [DecidableEq R] [RingScalars R]

/-- The entries of a tensor of numbers. -/
theorem entry_of_numberTable {type : TensorType} {t : Tensor R} {blocks n width : Nat}
    {f : Nat → Nat → Nat → R}
    (h : Tensor.ofElements type (numberTable id blocks n width f).flatten.toArray = .ok t)
    {b i c : Nat} (hb : b < blocks) (hi : i < n) (hc : c < width) :
    t.entry width (b * n + i) c = f b i c := by
  have hnarrow : (Scalar.narrow type.dtype : R → R) = id :=
    funext (isNumbers_id.narrow type.dtype)
  have hrow : rowOf t.elements width (b * n + i) = numberRow id width (f b i) := by
    rw [(Tensor.of_ofElements_eq_ok h).2.1, hnarrow, Array.map_id, List.toList_toArray]
    exact rowOf_table (fun _ _ _ _ => length_numberRow id _) hb hi
  unfold Tensor.entry
  rw [List.getD_eq_getElem?_getD, ← getElem?_rowOf _ hc, hrow]
  simp [numberRow, hc]

/-- The product of a tensor of numbers and other numbers. -/
theorem pairing_of_numberTable {type : TensorType} {t : Tensor R} {blocks n width : Nat}
    {f : Nat → Nat → Nat → R}
    (h : Tensor.ofElements type (numberTable id blocks n width f).flatten.toArray = .ok t)
    (g : Nat → Nat → Nat → R) : t.pairing blocks n width g =
      ∑ b ∈ Finset.range blocks, ∑ i ∈ Finset.range n, ∑ c ∈ Finset.range width,
        f b i c * g b i c := by
  refine Finset.sum_congr rfl fun b hb => Finset.sum_congr rfl fun i hi =>
    Finset.sum_congr rfl fun c hc => ?_
  rw [entry_of_numberTable h (Finset.mem_range.1 hb) (Finset.mem_range.1 hi)
    (Finset.mem_range.1 hc)]

/-- Tensors that hold the gradients in closed form are adjoint to the change of the output. -/
theorem CallNumbers.isAdjoint_of_numberTables {x : CallNumbers R} {p : Problem R}
    {d dq dk dv : Tensor R} {queryType keyType valueType : TensorType}
    (hd : x.dOut = d.entry p.valueDepth)
    (hquery : Tensor.ofElements queryType
      (numberTable id p.batch p.queries p.depth (x.queryGradient p)).flatten.toArray = .ok dq)
    (hkey : Tensor.ofElements keyType
      (numberTable id p.batch p.keys p.depth (x.keyGradient p)).flatten.toArray = .ok dk)
    (hvalue : Tensor.ofElements valueType
      (numberTable id p.batch p.keys p.valueDepth (x.valueGradient p)).flatten.toArray = .ok dv) :
    x.IsAdjoint p d dq dk dv := by
  intro e
  rw [pairing_of_numberTable hquery, pairing_of_numberTable hkey, pairing_of_numberTable hvalue,
    ← Finset.sum_add_distrib, ← Finset.sum_add_distrib]
  unfold Tensor.pairing
  rw [← hd]
  exact Finset.sum_congr rfl fun b _ => x.adjoint_entry p e b

namespace Problem.Posed

variable {p : Problem R} {args : Operands (Tensor R)} {d q k v : Tensor R} {batch : List Nat}
  (h : p.Posed (Problem.forwardOperands args) q k v batch)
  (hd : args.optional 0 = some d.contiguous)
  (hsize : p.batch * p.queries * p.valueDepth = d.type.numElements)
  {probabilities : List (List (List R))}
  (hprobabilities : p.probabilities (Problem.forwardOperands args) = .ok probabilities)
include h hprobabilities

/-- The probabilities have one entry for every batch entry, query and key. -/
theorem isStack_probabilities : IsStack p.batch p.queries p.keys probabilities := by
  obtain ⟨_, heq, hstack⟩ := returns_iff.1 h.returns_probabilities
  exact Except.ok.inj (heq.symm.trans hprobabilities) ▸ hstack

include hd hsize

/-- A call that poses a problem poses it in numbers. -/
theorem posedInNumbers : p.PosedInNumbers id
    (CallNumbers.ofCall p d q k v probabilities p.dropoutFactors) args d.contiguous q.contiguous
      k.contiguous v.contiguous where
  problem := h.problem
  incoming := hd
  query := h.query
  key := h.key
  value := h.value
  incomingDense := d.isContiguous_contiguous
  queryDense := q.isContiguous_contiguous
  keyDense := k.isContiguous_contiguous
  valueDense := v.isContiguous_contiguous
  incomingElements := by rw [Tensor.type_contiguous, hsize]
  queryElements := by rw [Tensor.type_contiguous, h.queryElements]
  keyElements := by rw [Tensor.type_contiguous, h.keyElements]
  valueElements := by rw [Tensor.type_contiguous, h.valueElements]
  reads := {
    dOut _ hr := row_eq_numberRow hsize hr
    query _ hr := row_eq_numberRow h.queryElements hr
    key _ hr := row_eq_numberRow h.keyElements hr
    value _ hr := row_eq_numberRow h.valueElements hr
    scale := rfl }
  probabilities :=
    hprobabilities.trans (congrArg _ (eq_numberStack (h.isStack_probabilities hprobabilities)))
  factors := by
    cases hfactors : p.dropoutFactors with
    | none => simp [numberStack, numberRow, CallNumbers.ofCall, isNumbers_id.one, Function.comp_def]
    | some factors => exact eq_numberStack (isStack_dropoutFactors hfactors)

end Problem.Posed

/-- Whatever the operations of a commutative ring are, the backward operator computes the adjoint of
the differential of attention, at the probabilities that it finds and with its dropout factors. -/
theorem backward_adjoint {tensors : List (Option (Tensor R))} {attrs : Attrs}
    {types : List TensorType}
    (hinfer : (backwardOperator : Operator R).infer (tensors.map (·.map Tensor.type)) attrs =
      .ok types)
    (havailable : Available (backwardScratch (tensors.map (·.map Tensor.type))) types) :
    ∃ (bound : Attrs) (p : Problem R) (d q k v : Tensor R) (mask : Option (Tensor R))
      (probabilities : List (List (List R))) (dq dk dv : Tensor R),
      tensors = [some d, some q, some k, some v, mask] ∧
      (backwardOperator : Operator R).bind tensors attrs = .ok bound ∧
      Problem.ofOperands (Problem.forwardOperands ⟨(backwardOperator : Operator R).qualifiedName,
        tensors.map (·.map Tensor.contiguous), bound⟩) = .ok p ∧
      p.probabilities (Problem.forwardOperands ⟨(backwardOperator : Operator R).qualifiedName,
        tensors.map (·.map Tensor.contiguous), bound⟩) = .ok probabilities ∧
      (backwardOperator : Operator R).execute tensors attrs = .ok [dq, dk, dv] ∧
      [dq, dk, dv].map Tensor.type = [q.type, k.type, v.type] ∧
      (CallNumbers.ofCall p d q k v probabilities p.dropoutFactors).IsAdjoint p d dq dk dv := by
  obtain ⟨bound, hbind, hlength, hattrs, htypes⟩ := Operator.exists_bound hinfer
  obtain ⟨d, q, k, v, mask, p, batch, rfl, rfl, hposed, hsize⟩ :=
    exists_posed_of_backwardCall hlength hattrs htypes
  obtain ⟨probabilities, hprobabilities, -⟩ := returns_iff.1 hposed.returns_probabilities
  -- That the gradients exist is known from the contract; which ones they are, from the closed form.
  obtain ⟨results, hresults, -⟩ :=
    returns_iff.1 (hposed.returns_of_available rfl hsize havailable)
  obtain ⟨dq, dk, dv, hquery, hkey, hvalue, hgradients⟩ :=
    (hposed.posedInNumbers rfl hsize hprobabilities).exists_gradients isNumbers_id
  obtain rfl : [dq, dk, dv] = results := by
    rw [hgradients] at hresults
    exact Except.ok.inj (check_bind_eq_ok_iff.1 (check_bind_eq_ok_iff.1 hresults).2).2
  refine ⟨bound, p, d, q, k, v, mask, probabilities, dq, dk, dv, rfl, hbind, hposed.problem,
    hprobabilities, Operator.execute_eq_ok hbind hresults, ?_,
    CallNumbers.isAdjoint_of_numberTables rfl hquery hkey hvalue⟩
  simp only [List.map_cons, List.map_nil, (Tensor.of_ofElements_eq_ok hquery).1,
    (Tensor.of_ofElements_eq_ok hkey).1, (Tensor.of_ofElements_eq_ok hvalue).1,
    Tensor.type_contiguous]

end

/-- The reals with their exponential. There is no value below all of them; any other takes its
place. -/
noncomputable instance : RingScalars ℝ where
  div := (· / ·)
  lowest := -1
  exp := Real.exp
  log := Real.log
  abs x := |x|
  max := max
  less x y := decide (x < y)
  ofFloat x := (BinaryParts.ofFloat x).toReal
  unitInterval word := (word >>> 8).toNat / (2 ^ 24 : ℕ)

/-- The real numbers of two rows of width one. -/
noncomputable def realPair (a b : ℝ) : Tensor ℝ :=
  Tensor.dense ⟨⟨[1, 2, 1]⟩, .f32, ⟨.cpu, 0⟩⟩ #[a, b] rfl

/-- Two queries and two keys, under a causal mask and with dropout: whatever the changes, both
directions have the same product. -/
theorem backward_adjoint_realPair : ∃ (p : Problem ℝ) (x : CallNumbers ℝ) (dq dk dv : Tensor ℝ),
    (p.batch, p.queries, p.keys, p.depth, p.valueDepth) = (1, 2, 2, 1, 1) ∧
    (backwardOperator : Operator ℝ).execute [some (realPair 1 1), some (realPair 0 1),
      some (realPair 0 1), some (realPair 1 0), none]
        (AttentionOptions.attrs ⟨0.5, true, some 1, 7⟩) = .ok [dq, dk, dv] ∧
    x.IsAdjoint p (realPair 1 1) dq dk dv := by
  obtain ⟨bound, p, d, q, k, v, mask, probabilities, dq, dk, dv, htensors, -, hproblem, -,
    hexecute, -, hadjoint⟩ := @backward_adjoint ℝ _ _ _ [some (realPair 1 1),
      some (realPair 0 1), some (realPair 0 1), some (realPair 1 0), none]
      (AttentionOptions.attrs ⟨0.5, true, some 1, 7⟩)
      [(realPair 0 1).type, (realPair 0 1).type, (realPair 1 0).type] rfl
      ⟨by decide, by decide⟩
  simp only [List.cons.injEq, Option.some.injEq] at htensors
  obtain ⟨rfl, rfl, rfl, rfl, rfl, -⟩ := htensors
  obtain ⟨hbatch, hqueries, hkeys, hdepth, hwidth⟩ :=
    Problem.sizes_of_ofOperands hproblem rfl rfl rfl
  refine ⟨p, _, dq, dk, dv, ?_, hexecute, hadjoint⟩
  simp only [Prod.mk.injEq]
  exact ⟨hbatch, (Option.some.inj hqueries).symm, (Option.some.inj hkeys).symm,
    (Option.some.inj hdepth).symm, (Option.some.inj hwidth).symm⟩

end Attention

end TraceSubstitution
