import TraceSubstitution.Attention.Problem

/-!
# Reference attention

The output row of a query is the sum of the values, each weighted by the
probability of its key; keys of weight zero are skipped, so that their values
need not be numbers.

The gradients follow the same rows. For every query the gradient of each weight
is the product of the output gradient and the value, and `scoreGradients` carries
it through the softmax. A query gradient gathers the keys, a key gradient the
queries, and a value gradient the output gradients, always in the order of the
rows; score gradients of zero are skipped.
-/

namespace TraceSubstitution

namespace Attention

namespace Problem

variable {α : Type} [Scalar α]

/-- A row of zeros. -/
def zeroRow (width : Nat) : List α := List.replicate width Scalar.zero

/-- The output row of one query of batch entry `b`, given the weights of the keys. -/
def outputRow (p : Problem α) (v : Rows α) (b : Nat) (weights : List α) :
    Except Failure (List α) :=
  weights.zipIdx.foldlM (fun acc (w, j) => do
    if Scalar.same w Scalar.zero then return acc
    else return Scalar.addScaled acc w (← v.row (b * p.keys + j))) (zeroRow p.valueDepth)

/-- The output rows by batch entry and query. -/
def outputRows (p : Problem α) (v : Rows α) (weights : List (List (List α))) :
    Except Failure (List (List (List α))) :=
  weights.zipIdx.mapM fun (entry, b) => entry.mapM (p.outputRow v b)

/-- The output of attention. -/
def forward (args : Operands (Tensor α)) : Except Failure (Tensor α) := do
  let p ← ofOperands args
  let probabilities ← p.probabilities args
  let weights := p.applyDropout probabilities
  let v ← (← args.tensor 2).rows p.valueDepth
  let rows ← p.outputRows v weights
  let type ← Require.withLastDim (← args.tensor 0).type p.valueDepth
  Tensor.ofElements type rows.flatten.flatten.toArray

/-- What the gradients need of one query. -/
structure QueryGradient (α : Type) where
  /-- The query. -/
  query : List α
  /-- The gradient of its output row. -/
  output : List α
  /-- The weights of the keys after dropout. -/
  weights : Array α
  /-- The gradients of its scores. -/
  scores : Array α

/-- The gradients of the scores of a query from the gradients of its weights. -/
def scoreGradients (scale : α) (probabilities gradients : List α) : List α :=
  let total := Scalar.dot probabilities gradients
  List.zipWith (fun p g => p * (g - total) * scale) probabilities gradients

/-- The gradient of one weight: the product of the output gradient and the value. -/
def weightGradient (output value : List α) : α :=
  (List.zipWith (· * ·) output value).foldl (· + ·) Scalar.zero

/-- The gradients of query `i` of batch entry `b`, given its probabilities and dropout factors. -/
def queryGradient (p : Problem α) (dOut q v : Rows α) (b i : Nat)
    (probabilities factors : List α) : Except Failure (QueryGradient α) := do
  let output ← dOut.row (b * p.queries + i)
  let gradients ← factors.zipIdx.mapM fun (f, j) => do
    return weightGradient output (← v.row (b * p.keys + j)) * f
  let query ← q.row (b * p.queries + i)
  return {
    query, output
    weights := (List.zipWith (· * ·) probabilities factors).toArray
    scores := (scoreGradients p.scale probabilities gradients).toArray }

/-- The gradient of a query: the keys, each times the gradient of its score. -/
def gatherKeys (p : Problem α) (k : Rows α) (b : Nat) (g : QueryGradient α) :
    Except Failure (List α) :=
  g.scores.toList.zipIdx.foldlM (fun acc (s, j) => do
    if Scalar.same s Scalar.zero then return acc
    else return Scalar.addScaled acc s (← k.row (b * p.keys + j))) (zeroRow p.depth)

/-- The gradient of key `j`: the queries, each times the gradient of its score. -/
def gatherQueries (p : Problem α) (gradients : List (QueryGradient α)) (j : Nat) : List α :=
  gradients.foldl (fun acc g =>
    let s := g.scores.getD j Scalar.zero
    if Scalar.same s Scalar.zero then acc else Scalar.addScaled acc s g.query) (zeroRow p.depth)

/-- The gradient of value `j`: the output gradients, each times the weight of the key. -/
def gatherOutputs (p : Problem α) (gradients : List (QueryGradient α)) (j : Nat) : List α :=
  gradients.foldl (fun acc g => Scalar.addScaled acc (g.weights.getD j Scalar.zero) g.output)
    (zeroRow p.valueDepth)

/-- The gradients of the rows of query, key and value. -/
structure Gradients (α : Type) where
  /-- By batch entry and query. -/
  queries : List (List (List α))
  /-- By batch entry and key. -/
  keys : List (List (List α))
  /-- By batch entry and key. -/
  values : List (List (List α))

/-- The gradients of all rows, given the probabilities and the dropout factors. -/
def gradients (p : Problem α) (dOut q k v : Rows α) (probabilities : List (List (List α)))
    (factors : Option (List (List (List α)))) : Except Failure (Gradients α) := do
  let factors := factors.getD (probabilities.map (·.map (·.map fun _ => Scalar.one)))
  let entries ← (probabilities.zip factors).zipIdx.mapM fun ((ps, fs), b) =>
    (ps.zip fs).zipIdx.mapM fun ((ps, fs), i) => p.queryGradient dOut q v b i ps fs
  let queries ← entries.zipIdx.mapM fun (entry, b) => entry.mapM (p.gatherKeys k b)
  return {
    queries
    keys := entries.map fun entry => (List.range p.keys).map (p.gatherQueries entry)
    values := entries.map fun entry => (List.range p.keys).map (p.gatherOutputs entry) }

/-- The operands of attention among those of its backward operator, which has the gradient of the
output before them. -/
def forwardOperands (args : Operands (Tensor α)) : Operands (Tensor α) :=
  { args with tensors := [args.optional 1, args.optional 2, args.optional 3, args.optional 4] }

/-- The gradients of query, key and value; the operands are the gradient of the output followed
by the operands of attention. -/
def backward (args : Operands (Tensor α)) : Except Failure (List (Tensor α)) := do
  let p ← ofOperands (forwardOperands args)
  let probabilities ← p.probabilities (forwardOperands args)
  let dOut ← (← args.tensor 0).rows p.valueDepth
  let query ← args.tensor 1
  let key ← args.tensor 2
  let value ← args.tensor 3
  let q ← query.rows p.depth
  let k ← key.rows p.depth
  let v ← value.rows p.valueDepth
  let g ← p.gradients dOut q k v probabilities p.dropoutFactors
  let dQuery ← Tensor.ofElements query.type g.queries.flatten.flatten.toArray
  let dKey ← Tensor.ofElements key.type g.keys.flatten.flatten.toArray
  let dValue ← Tensor.ofElements value.type g.values.flatten.flatten.toArray
  return [dQuery, dKey, dValue]

end Problem

end Attention

end TraceSubstitution
