import TraceSubstitution.Attention.Reference
import TraceSubstitution.Proofs.Action
import TraceSubstitution.Proofs.Scalar.Exact

/-!
# Exact attention of one query

What attention gives a query that sees some keys: the mean of their values, weighted
by the exponentials of their scores (`meanRow`), and the logarithm of the sum of these
exponentials (`logSum`). The scores may all be taken relative to one of them, since the
weights are shares of their sum; so the softmax of the reference implementation gives
these weights (`Problem.softmax_eq`), and its output row is the mean
(`Problem.outputRow_softmax`).
-/

namespace TraceSubstitution

namespace Attention

open Extended ExactScalars

variable {K : Type} [Field K] [LinearOrder K] [ExactScalars K]

/-- The score of a key: its product with the query, times a scale. -/
def score (c : K) (query key : List K) : K := c * (List.zipWith (· * ·) query key).sum

/-- The sum of the exponentials of some scores. -/
def mass (scores : List K) : K := (scores.map exp).sum

/-- Adds the values of some keys to a row, each times the exponential of its score. -/
def gatherValues (row : List K) (keys : List (K × List K)) : List K :=
  keys.foldl (fun row e => addMultiple row (exp e.1) e.2) row

/-- The mean of the values of the keys that a query sees, weighted by the exponentials of their
scores; zero if there is no key. -/
def meanRow (width : Nat) (keys : List (K × List K)) : List K :=
  (gatherValues (List.replicate width 0) keys).map (· / mass (keys.map (·.1)))

/-- The logarithm of the sum of the exponentials of some scores, and the lowest value if there
is none. -/
def logSum (scores : List K) : Extended K :=
  if scores = [] then lowest else of (log (mass scores))

theorem mass_append (xs ys : List K) : mass (xs ++ ys) = mass xs + mass ys := by
  unfold mass
  rw [List.map_append, List.sum_append]

@[simp] theorem mass_singleton (x : K) : mass [x] = exp x := by simp [mass]

theorem mass_pos [IsStrictOrderedRing K] {scores : List K} (h : scores ≠ []) : 0 < mass scores := by
  unfold mass
  refine List.sum_pos _ (fun x hx => ?_) (by simpa using h)
  obtain ⟨a, -, rfl⟩ := List.mem_map.1 hx
  exact exp_pos a

/-- Weights may be taken relative to any score. -/
theorem sum_exp_sub (scores : List K) (m : K) :
    (scores.map fun s => exp (s - m)).sum = mass scores / exp m := by
  simp only [mass, exp_sub, div_eq_mul_inv, List.sum_map_mul_right]

theorem gatherValues_append (row : List K) (keys keys' : List (K × List K)) :
    gatherValues row (keys ++ keys') = gatherValues (gatherValues row keys) keys' :=
  List.foldl_append

@[simp] theorem gatherValues_singleton (row : List K) (score : K) (value : List K) :
    gatherValues row [(score, value)] = addMultiple row (exp score) value := rfl

theorem length_gatherValues {row : List K} {keys : List (K × List K)}
    (h : ∀ e ∈ keys, e.2.length = row.length) : (gatherValues row keys).length = row.length := by
  refine List.foldlRecOn (motive := fun xs : List K => xs.length = row.length) keys _ rfl
    fun xs hxs e he => ?_
  rw [length_addMultiple, hxs, h e he, Nat.min_self]

theorem length_meanRow {width : Nat} {keys : List (K × List K)}
    (h : ∀ e ∈ keys, e.2.length = width) : (meanRow width keys).length = width := by
  unfold meanRow
  rw [List.length_map, length_gatherValues, List.length_replicate]
  simpa using h

/-- The values that are added to a scaled row may be scaled afterwards. -/
theorem foldl_addMultiple_div (row : List K) (keys : List (K × List K)) (t : K) :
    (keys.map fun e => (exp e.1 / t, e.2)).foldl (fun row e => addMultiple row e.1 e.2)
      (row.map (· / t)) = (gatherValues row keys).map (· / t) := by
  induction keys generalizing row with
  | nil => rfl
  | cons e keys ih =>
    have hrow := ih (addMultiple row (exp e.1) e.2)
    rwa [← addMultiple_div] at hrow

omit [LinearOrder K] [ExactScalars K] in
/-- Values of weight zero add nothing. -/
theorem foldl_addMultiple_zero {row : List K} {values : List (List K)}
    (h : ∀ value ∈ values, value.length = row.length) :
    (values.map fun value => ((0 : K), value)).foldl (fun row e => addMultiple row e.1 e.2) row =
      row := by
  induction values with
  | nil => rfl
  | cons value values ih =>
    obtain ⟨hvalue, hvalues⟩ := List.forall_mem_cons.1 h
    rw [List.map_cons, List.foldl_cons, addMultiple_zero hvalue.ge]
    exact ih hvalues

/-- The weights of some keys that a query sees and of others that are hidden, with their values. -/
def weightedKeys (seen : List (K × List K)) (hidden : List (List K)) : List (K × List K) :=
  (seen.map fun e => (exp e.1 / mass (seen.map (·.1)), e.2)) ++ hidden.map fun value => (0, value)

theorem values_weightedKeys (seen : List (K × List K)) (hidden : List (List K)) :
    (weightedKeys seen hidden).map (·.2) = seen.map (·.2) ++ hidden := by
  simp [weightedKeys]

/-- The weighted values add up to the mean of those that are seen. -/
theorem foldl_weightedKeys {seen : List (K × List K)} {hidden : List (List K)} {width : Nat}
    (h : ∀ value ∈ seen.map (·.2) ++ hidden, value.length = width) :
    (weightedKeys seen hidden).foldl (fun row e => addMultiple row e.1 e.2)
      (List.replicate width 0) = meanRow width seen := by
  have hseen := foldl_addMultiple_div (List.replicate width 0) seen (mass (seen.map (·.1)))
  rw [List.map_replicate, zero_div] at hseen
  unfold weightedKeys
  rw [List.foldl_append, hseen]
  refine foldl_addMultiple_zero fun value hvalue => ?_
  rw [List.length_map, length_gatherValues, List.length_replicate,
    h value (List.mem_append_right _ hvalue)]
  intro e he
  rw [List.length_replicate, h e.2 (List.mem_append_left _ (List.mem_map_of_mem he))]

namespace Problem

/-- The softmax of some scores, of which the last ones are those of hidden keys: the weight of a
key is its share in the sum of the exponentials. -/
theorem softmax_eq (scores : List K) (hidden : Nat) :
    softmax (scores.map of ++ List.replicate hidden lowest) =
      (scores.map (exp · / mass scores) ++ List.replicate hidden 0).map of := by
  unfold softmax
  by_cases hscores : scores = []
  · simp [hscores, maximum_replicate]
  · obtain ⟨a, rest, rfl⟩ := List.exists_cons_of_ne_nil hscores
    obtain ⟨m, hm⟩ := exists_maximum (a := a) (List.mem_append_left
      (List.replicate hidden lowest) (List.mem_map_of_mem (f := of) List.mem_cons_self))
    generalize a :: rest = scores at hm ⊢
    have hweights : (scores.map of ++ List.replicate hidden lowest).map
        (fun s => Scalar.exp (s - of m)) =
        (scores.map (fun s => exp (s - m)) ++ List.replicate hidden 0).map of := by
      simp
    have hratio : ∀ s, exp (s - m) / (mass scores / exp m) = exp s / mass scores := fun s => by
      rw [exp_sub, div_div_div_cancel_right₀ (exp_pos m).ne']
    simp only [hm, lowest_eq, same_lowest, hweights, zero_eq, foldl_add, List.sum_append,
      sum_exp_sub]
    simp [hratio]

variable {p : Problem (Extended K)} {v : Rows (Extended K)} {b : Nat}

/-- The values from position `k` on are added to a row, each times its weight. -/
theorem foldlM_outputRow {keys : List (K × List K)} {k : Nat} {row : List K}
    (hrow : row.length = p.valueDepth) (h : ∀ j e, keys[j]? = some e →
      v.row (b * p.keys + (k + j)) = .ok (e.2.map of) ∧ e.2.length = p.valueDepth) :
    ((keys.map fun e => of e.1).zipIdx k).foldlM (fun acc (w, j) => do
      if Scalar.same w Scalar.zero then return acc
      else return Scalar.addScaled acc w (← v.row (b * p.keys + j))) (row.map of) =
      .ok ((keys.foldl (fun row e => addMultiple row e.1 e.2) row).map of) := by
  induction keys generalizing k row with
  | nil => rfl
  | cons e keys ih =>
    obtain ⟨hread, hlength⟩ := h 0 e rfl
    have hstep : (if Scalar.same (of e.1) Scalar.zero then pure (row.map of) else do
        return Scalar.addScaled (row.map of) (of e.1) (← v.row (b * p.keys + k))) =
        (.ok ((addMultiple row e.1 e.2).map of) : Except Failure (List (Extended K))) := by
      by_cases hzero : e.1 = 0
      · -- a weight of zero is skipped, which makes no difference to the sum
        simp [hzero, addMultiple_zero (show row.length ≤ e.2.length by rw [hrow, hlength])]
      · simp [hzero, show v.row (b * p.keys + k) = _ from hread, addScaled_of]
    have hnext : (addMultiple row e.1 e.2).length = p.valueDepth := by
      rw [length_addMultiple, hrow, hlength, Nat.min_self]
    rw [List.map_cons, List.zipIdx_cons, List.foldlM_cons]
    dsimp only
    rw [hstep, ok_bind, List.foldl_cons]
    refine ih hnext fun j e' he' => ?_
    rw [Nat.add_assoc k, Nat.add_comm 1]
    exact h (j + 1) e' he'

/-- The values are added up, each times its weight, also where a weight of zero is skipped. -/
theorem outputRow_eq {keys : List (K × List K)} (h : ∀ j e, keys[j]? = some e →
      v.row (b * p.keys + j) = .ok (e.2.map of) ∧ e.2.length = p.valueDepth) :
    p.outputRow v b (keys.map fun e => of e.1) =
      .ok ((keys.foldl (fun row e => addMultiple row e.1 e.2)
        (List.replicate p.valueDepth 0)).map of) := by
  have hrow := foldlM_outputRow (k := 0) (List.length_replicate (a := (0 : K))) fun j e he => by
    rw [Nat.zero_add]
    exact h j e he
  rwa [List.map_replicate] at hrow

/-- The weights of the softmax are those of the keys. -/
theorem softmax_eq_weights (seen : List (K × List K)) (hidden : List (List K)) :
    softmax ((seen.map (·.1)).map of ++ List.replicate hidden.length lowest) =
      (weightedKeys seen hidden).map fun e => of e.1 := by
  rw [softmax_eq]
  simp [weightedKeys, Function.comp_def]

/-- The output row of a query is the mean of the values that it sees, weighted by the exponentials
of their scores: hidden keys have no weight. -/
theorem outputRow_softmax (seen : List (K × List K)) (hidden : List (List K))
    (h : ∀ j value, (seen.map (·.2) ++ hidden)[j]? = some value →
      v.row (b * p.keys + j) = .ok (value.map of) ∧ value.length = p.valueDepth) :
    p.outputRow v b (softmax ((seen.map (·.1)).map of ++ List.replicate hidden.length lowest)) =
      .ok ((meanRow p.valueDepth seen).map of) := by
  rw [softmax_eq_weights, outputRow_eq, foldl_weightedKeys]
  · intro value hvalue
    obtain ⟨j, hj⟩ := List.mem_iff_getElem?.1 hvalue
    exact (h j value hj).2
  · intro j e he
    refine h j e.2 ?_
    rw [← values_weightedKeys, List.getElem?_map, he]
    rfl

end Problem

end Attention

end TraceSubstitution
