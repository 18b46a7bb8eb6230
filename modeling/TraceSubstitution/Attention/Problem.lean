import TraceSubstitution.Attention.Mask
import TraceSubstitution.Operator.Operands
import TraceSubstitution.Operator.Requirement
import TraceSubstitution.Random.ChaCha
import TraceSubstitution.Tensor.Rows

/-!
# Attention problems

A `Problem` is one call of attention: the sizes that its operands have and its
static arguments. The operands are read as rows, and the rows of a batch entry
follow those of the one before.

The score of a query and a key is their scaled product, plus the value of the
mask. Under a causal mask query `i` sees the keys up to number `i`. The
probabilities of a query are the softmax of its scores, and all of them are zero
if it sees nothing. Dropout multiplies each probability by zero or by the inverse
of the share that is kept.
-/

namespace TraceSubstitution

namespace Attention

/-- Sizes and static arguments of a call of attention. -/
structure Problem (α : Type) where
  /-- How many independent batch entries there are. -/
  batch : Nat
  /-- How many queries a batch entry has. -/
  queries : Nat
  /-- How many keys a batch entry has. -/
  keys : Nat
  /-- The width of queries and keys. -/
  depth : Nat
  /-- The width of values. -/
  valueDepth : Nat
  /-- What the product of a query and a key is multiplied by. -/
  scale : α
  /-- Whether a query sees only the keys up to its own number. -/
  causal : Bool
  /-- The share of probabilities that is dropped. -/
  dropout : α
  /-- The seed of the dropout mask. -/
  seed : UInt64

/-- The scale of an attention call: the given one, or one over the root of the depth. -/
def softmaxScale (attrs : Attrs) (depth : Nat) : Except Failure Float := do
  return (← attrs.optionalFloat "scale").getD (1.0 / (Float.ofNat depth).sqrt)

/-- The sizes of the scores of a call. -/
def scoreDims (query key : TensorType) : Except Failure (List Nat) := do
  if query.rank < 2 then .error (.panic .outOfBounds)
  else
    let keys ← Require.dim key (query.rank - 2)
    return query.dims.take (query.rank - 1) ++ [keys]

/-- The steps with which a mask is read for the scores of a query and a key. -/
def maskStrides (query key mask : TensorType) : Except Failure (List Nat) := do
  broadcastStrides mask.dims (← scoreDims query key)

namespace Problem

variable {α : Type} [Scalar α]

/-- The problem that the operands of a call pose. -/
def ofOperands (args : Operands (Tensor α)) : Except Failure (Problem α) := do
  let query := (← args.tensor 0).type
  let key := (← args.tensor 1).type
  let value := (← args.tensor 2).type
  let depth ← Require.lastDim query
  if query.rank < 2 then .error (.panic .outOfBounds)
  else
    let queries ← Require.dim query (query.rank - 2)
    let keys ← Require.dim key (query.rank - 2)
    let valueDepth ← Require.lastDim value
    let scale ← softmaxScale args.attrs depth
    let causal ← args.attrs.bool "is_causal"
    let dropout ← args.attrs.float "dropout_p"
    let seed ← args.attrs.int "seed"
    return {
      batch := volume (query.dims.take (query.rank - 2))
      queries, keys, depth, valueDepth, causal
      scale := Scalar.ofFloat scale
      dropout := Scalar.ofFloat dropout
      seed := seed.toUInt64 }

/-- Checks that the mask of a call, if there is one, fits the scores. -/
def checkMask (args : Operands (Tensor α)) : Except Failure Unit := do
  let query := (← args.tensor 0).type
  let key := (← args.tensor 1).type
  match args.optional 3 with
  | none => return ()
  | some mask => discard <| maskStrides query key mask.type

/-- The value of the mask for every score of a call, if there is a mask. -/
def maskValues (args : Operands (Tensor α)) : Except Failure (Option (Array α)) := do
  let query := (← args.tensor 0).type
  let key := (← args.tensor 1).type
  match args.optional 3 with
  | none => return none
  | some mask =>
    let strides ← maskStrides query key mask.type
    let values ← broadcast (← mask.block) (← scoreDims query key) strides
    return some values.toArray

/-- The score of query `i` and key `j` of batch entry `b`. -/
def score (p : Problem α) (k : Rows α) (mask : Option (Array α)) (b i : Nat) (query : List α)
    (j : Nat) : Except Failure α := do
  if p.causal && i < j then return Scalar.lowest
  else
    let key ← k.row (b * p.keys + j)
    let scaled := Scalar.dot query key * p.scale
    match mask with
    | none => return scaled
    | some mask =>
      let x ← orPanic .outOfBounds mask[(b * p.queries + i) * p.keys + j]?
      return scaled + x

/-- The weights of a list of scores: positive, with sum one, and all zero if no score is above
the lowest value. -/
def softmax (scores : List α) : List α :=
  let top := Scalar.maximum scores
  if Scalar.same top Scalar.lowest then scores.map fun _ => Scalar.zero
  else
    let weights := scores.map fun s => Scalar.exp (s - top)
    let total := weights.foldl (· + ·) Scalar.zero
    weights.map (· / total)

/-- The probabilities of query `i` of batch entry `b`, one for every key. -/
def probabilityRow (p : Problem α) (q k : Rows α) (mask : Option (Array α)) (b i : Nat) :
    Except Failure (List α) := do
  let query ← q.row (b * p.queries + i)
  return softmax (← (List.range p.keys).mapM (p.score k mask b i query))

/-- The probabilities by batch entry, query and key, before dropout. -/
def probabilities (p : Problem α) (args : Operands (Tensor α)) :
    Except Failure (List (List (List α))) := do
  let q ← (← args.tensor 0).rows p.depth
  let k ← (← args.tensor 1).rows p.depth
  let mask ← maskValues args
  (List.range p.batch).mapM fun b =>
    (List.range p.queries).mapM fun i => p.probabilityRow q k mask b i

/-- What the probability that belongs to a random word is multiplied by. -/
def dropoutFactor (p : Problem α) (word : UInt32) : α :=
  if Scalar.less (Scalar.unitInterval word) p.dropout then Scalar.zero
  else Scalar.one / (Scalar.one - p.dropout)

/-- The dropout factors of all probabilities, by batch entry, query and key; `none` if nothing
is dropped. -/
def dropoutFactors (p : Problem α) : Option (List (List (List α))) :=
  if Scalar.same p.dropout Scalar.zero then none
  else
    let words := (randomWords p.seed (p.batch * p.queries * p.keys)).toArray
    some <| (List.range p.batch).map fun b => (List.range p.queries).map fun i =>
      let start := (b * p.queries + i) * p.keys
      (words.extract start (start + p.keys)).toList.map p.dropoutFactor

/-- The probabilities after dropout. -/
def applyDropout (p : Problem α) (probabilities : List (List (List α))) : List (List (List α)) :=
  match p.dropoutFactors with
  | none => probabilities
  | some factors =>
    List.zipWith (List.zipWith (List.zipWith (· * ·))) probabilities factors

end Problem

end Attention

end TraceSubstitution
