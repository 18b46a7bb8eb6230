import TraceSubstitution.Flash.Config
import TraceSubstitution.Operator.Requirement
import TraceSubstitution.Scalar.Basic
import TraceSubstitution.Tensor.Rows

/-!
# The fused kernel

A fused kernel computes attention without keeping the probabilities. The forward
part returns the output and, for every query, the logarithm of the sum of the
exponentials of its scores; from it the backward part finds the probabilities
again. Gradients may come back wider than the operands.

`reference` runs on the host. It reads the keys block by block. `Stream` is what
it knows of a query after some blocks: the largest score so far, the sum of the
exponentials relative to it, and the values weighted by them. A block with a
larger score scales down what came before. Queries that see no key have an output
of zero, and the lowest value as their logarithm. Before it computes, it reserves
its buffers. The rows of results without elements are not walked: they may be
many.
-/

namespace TraceSubstitution

/-- The output of a fused forward part. -/
structure FlashForward (α : Type) where
  /-- The output of attention. -/
  primary : Tensor α
  /-- The logarithm of the sum of the exponentials of the scores, for every query. -/
  auxiliary : Tensor α

/-- The gradients of a fused backward part, which may be padded. -/
structure FlashGradients (α : Type) where
  /-- The gradient of the queries. -/
  dq : Tensor α
  /-- The gradient of the keys. -/
  dk : Tensor α
  /-- The gradient of the values. -/
  dv : Tensor α

/-- The operands of the backward part. -/
structure FlashBackwardInput (α : Type) where
  /-- The gradient of the output. -/
  dOut : Tensor α
  /-- The queries. -/
  q : Tensor α
  /-- The keys. -/
  k : Tensor α
  /-- The values. -/
  v : Tensor α
  /-- The output of the forward part. -/
  out : Tensor α
  /-- The logarithms of the forward part. -/
  lse : Tensor α

/-- A fused attention kernel. -/
structure FlashKernel (α : Type) where
  /-- The name of the kernel. -/
  name : String
  /-- Whether the kernel finds itself able to run on this host. -/
  probe : Bool
  /-- The kind of hardware it runs on. -/
  deviceKind : DeviceKind
  /-- The output for queries, keys and values, a scale, and with or without a causal mask. -/
  forward (q k v : Tensor α) (scale : α) (causal : Bool) : Except Failure (FlashForward α)
  /-- The gradients of queries, keys and values. -/
  backward (input : FlashBackwardInput α) (scale : α) (causal : Bool) :
    Except Failure (FlashGradients α)

namespace Flash

/-- The sizes of a fused attention call. -/
structure Layout where
  /-- How many independent heads there are, over all batch entries. -/
  heads : Nat
  /-- How many queries a head has. -/
  queries : Nat
  /-- How many keys a head has. -/
  keys : Nat
  /-- The width of queries and keys. -/
  depth : Nat
  /-- The width of values. -/
  valueDepth : Nat

/-- How many keys query `i` sees. -/
def Layout.visible (l : Layout) (i : Nat) (causal : Bool) : Nat :=
  if causal then min (i + 1) l.keys else l.keys

variable {α : Type}

/-- Checks that an operand has four axes and lies in one piece. -/
def checkOperand (name : String) (t : Tensor α) : Except Failure Unit := do
  ensure (t.type.rank = 4) (.flash (.rank name t.type.shape))
  ensure t.isContiguous (.flash (.notContiguous name))

/-- The sizes of a call, whose operands must agree. -/
def layout (q k v : Tensor α) : Except Failure Layout := do
  checkOperand "q" q
  checkOperand "k" k
  checkOperand "v" v
  match q.type.dims, k.type.dims, v.type.dims with
  | [q0, q1, q2, q3], [k0, k1, k2, k3], [v0, v1, v2, v3] =>
    ensure (q0 = k0 && q1 = k1 && q0 = v0 && q1 = v1)
      (.flash (.batchHeadsDisagree q.type.shape k.type.shape v.type.shape))
    ensure (q3 = k3) (.flash (.headDimsDisagree q.type.shape k.type.shape))
    ensure (k2 = v2) (.flash (.lengthsDisagree k.type.shape v.type.shape))
    return ⟨q0 * q1, q2, k2, q3, v3⟩
  | _, _, _ => .error (.panic .outOfBounds)

variable [Scalar α]

/-- What is known of a query after some blocks of keys. -/
structure Stream (α : Type) where
  /-- The largest score so far. -/
  top : α
  /-- The sum of the exponentials of the scores relative to the largest one. -/
  total : α
  /-- The sum of the values weighted by these exponentials. -/
  acc : List α

/-- What is known before the first block. -/
def Stream.start (width : Nat) : Stream α :=
  ⟨Scalar.lowest, Scalar.zero, List.replicate width Scalar.zero⟩

/-- Takes in one key: its score and its value. -/
def Stream.addKey (s : Stream α) (score : α) (value : List α) : Stream α :=
  let p := Scalar.exp (score - s.top)
  { s with total := s.total + p, acc := Scalar.addScaled s.acc p value }

/-- Takes in a block of keys: their scores and values. -/
def Stream.addBlock (s : Stream α) (block : List (α × List α)) : Stream α :=
  let top := Scalar.max s.top (Scalar.maximum (block.map (·.1)))
  let correction := Scalar.exp (s.top - top)
  let scaled : Stream α := ⟨top, s.total * correction, s.acc.map (· * correction)⟩
  block.foldl (fun s (score, value) => s.addKey score value) scaled

/-- Takes in a list of keys, in blocks of `size`; the last one may be shorter, and none is empty. -/
def Stream.addKeys (size : Nat) (s : Stream α) : List (α × List α) → Stream α
  | [] => s
  | key :: keys =>
    (s.addBlock (key :: keys.take (size - 1))).addKeys size (keys.drop (size - 1))
termination_by keys => keys.length
decreasing_by simp only [List.length_drop, List.length_cons]; omega

@[simp] theorem Stream.addKeys_nil (size : Nat) (s : Stream α) : s.addKeys size [] = s := by
  rw [addKeys]

theorem Stream.addKeys_of_ne_nil {size : Nat} (hsize : 0 < size) (s : Stream α)
    {keys : List (α × List α)} (hkeys : keys ≠ []) :
    s.addKeys size keys = (s.addBlock (keys.take size)).addKeys size (keys.drop size) := by
  obtain ⟨n, rfl⟩ := Nat.exists_eq_succ_of_ne_zero (Nat.ne_of_gt hsize)
  cases keys with
  | nil => exact absurd rfl hkeys
  | cons key keys => rw [addKeys]; rfl

/-- The output row and the logarithm of a query, after all blocks. -/
def Stream.finish (s : Stream α) : List α × α :=
  if Scalar.less Scalar.zero s.total then
    (s.acc.map (· / s.total), s.top + Scalar.log s.total)
  else (s.acc, Scalar.lowest)

/-- The output row and the logarithm of a query, from the keys it sees and their values. -/
def attend (blockSize : Nat) (scale : α) (width : Nat) (query : List α)
    (keys : List (List α × List α)) : List α × α :=
  let scored := keys.map fun (key, value) => (scale * Scalar.dot query key, value)
  ((Stream.start width).addKeys blockSize scored).finish

/-- The keys that query `i` of a head sees, with their values. -/
def visibleKeys (l : Layout) (k v : Rows α) (head i : Nat) (causal : Bool) :
    Except Failure (List (List α × List α)) :=
  (List.range (l.visible i causal)).mapM fun j => do
    return (← k.row (head * l.keys + j), ← v.row (head * l.keys + j))

/-- The output rows and logarithms by head and query; none if no head has a query. -/
def attendAll (l : Layout) (blockSize : Nat) (q k v : Rows α) (scale : α) (causal : Bool) :
    Except Failure (List (List (List α × α))) :=
  if l.queries = 0 then .ok []
  else (List.range l.heads).mapM fun head => (List.range l.queries).mapM fun i => do
    let query ← q.row (head * l.queries + i)
    return attend blockSize scale l.valueDepth query (← visibleKeys l k v head i causal)

/-- The forward part on the host. -/
def forward (blockSize : Nat) (q k v : Tensor α) (scale : α) (causal : Bool) :
    Except Failure (FlashForward α) := do
  let l ← layout q k v
  let rows ← attendAll l blockSize (← q.rows l.depth) (← k.rows l.depth) (← v.rows l.valueDepth)
    scale causal
  let type ← Require.withLastDim q.type l.valueDepth
  let lseShape ← orPanic .noAxes (Shape.ofDims? (q.type.dims.take 3))
  return {
    primary := ← Tensor.ofElements type (rows.flatten.map (·.1)).flatten.toArray
    auxiliary := ← Tensor.ofElements ⟨lseShape, .f32, q.type.device⟩
      (rows.flatten.map (·.2)).toArray }

/-- What the gradients need of one query: the probabilities of the keys it sees and the gradients
of its scores. A query that sees nothing has neither. -/
structure QueryTerms (α : Type) where
  /-- The query. -/
  query : List α
  /-- The gradient of its output row. -/
  output : List α
  /-- The probabilities of the keys it sees. -/
  probabilities : Array α
  /-- The gradients of the scores of these keys. -/
  scores : Array α

/-- The probability of a key and the gradient of its score. -/
def keyTerms (scale : α) (query output : List α) (delta lse : α) (key value : List α) : α × α :=
  let p := Scalar.exp (scale * Scalar.dot query key - lse)
  (p, p * (Scalar.dot output value - delta) * scale)

/-- The terms of a query from the keys it sees and their values. -/
def queryTerms (scale : α) (query output out : List α) (lse : α)
    (keys : List (List α × List α)) : QueryTerms α :=
  if Scalar.same lse Scalar.lowest then ⟨query, output, #[], #[]⟩
  else
    let delta := Scalar.dot output out
    let terms := keys.map fun (key, value) => keyTerms scale query output delta lse key value
    ⟨query, output, (terms.map (·.1)).toArray, (terms.map (·.2)).toArray⟩

/-- The gradient of a query: the keys it sees, each times the gradient of its score. -/
def gatherKeys (width : Nat) (t : QueryTerms α) (keys : List (List α × List α)) : List α :=
  (t.scores.toList.zip keys).foldl (fun acc (s, key, _) => Scalar.addScaled acc s key)
    (List.replicate width Scalar.zero)

/-- The gradient of key `j`: the queries that see it, each times the gradient of its score. -/
def gatherQueries (width : Nat) (terms : List (QueryTerms α)) (j : Nat) : List α :=
  terms.foldl (fun acc t => match t.scores[j]? with
    | some s => Scalar.addScaled acc s t.query
    | none => acc) (List.replicate width Scalar.zero)

/-- The gradient of value `j`: the output gradients of the queries that see its key, each times
the probability of the key. -/
def gatherOutputs (width : Nat) (terms : List (QueryTerms α)) (j : Nat) : List α :=
  terms.foldl (fun acc t => match t.probabilities[j]? with
    | some p => Scalar.addScaled acc p t.output
    | none => acc) (List.replicate width Scalar.zero)

/-- A row with zeros added up to a width. -/
def padRow (width : Nat) (row : List α) : List α :=
  row ++ List.replicate (width - row.length) Scalar.zero

/-- The gradients of the rows of queries, keys and values, by head. -/
structure HeadGradients (α : Type) where
  /-- The gradients of the queries. -/
  queries : List (List α)
  /-- The gradients of the keys. -/
  keys : List (List α)
  /-- The gradients of the values. -/
  values : List (List α)

/-- The operands of the backward part as rows. -/
structure BackwardRows (α : Type) where
  /-- The gradients of the output rows. -/
  dOut : Rows α
  /-- The queries. -/
  q : Rows α
  /-- The keys. -/
  k : Rows α
  /-- The values. -/
  v : Rows α
  /-- The output rows. -/
  out : Rows α
  /-- The logarithms, one in each row. -/
  lse : Rows α

/-- The terms of query `i` of a head, with the keys it sees. -/
def termsOf (l : Layout) (r : BackwardRows α) (scale : α) (causal : Bool) (head i : Nat) :
    Except Failure (QueryTerms α × List (List α × List α)) := do
  let row := head * l.queries + i
  let query ← r.q.row row
  let output ← r.dOut.row row
  let out ← r.out.row row
  let lse ← orPanic .outOfBounds (← r.lse.row row).head?
  let keys ← visibleKeys l r.k r.v head i causal
  return (queryTerms scale query output out lse keys, keys)

/-- The gradients of one head. -/
def headGradients (l : Layout) (r : BackwardRows α) (scale : α) (causal : Bool) (head : Nat) :
    Except Failure (HeadGradients α) := do
  let terms ← (List.range l.queries).mapM (termsOf l r scale causal head)
  return {
    queries := terms.map fun (t, keys) => gatherKeys l.depth t keys
    keys := (List.range l.keys).map (gatherQueries l.depth (terms.map (·.1)))
    values := (List.range l.keys).map (gatherOutputs l.valueDepth (terms.map (·.1))) }

/-- A width rounded up to a multiple of the alignment; an alignment of zero counts as one. -/
def paddedWidth (alignment width : Nat) : Nat :=
  let a := max alignment 1
  (width + a - 1) / a * a

/-- A gradient of the type of an operand, widened to `width`. -/
def paddedTensor (operand : Tensor α) (width : Nat) (rows : List (List α)) :
    Except Failure (Tensor α) := do
  let type ← Require.withLastDim operand.type width
  Tensor.ofElements type (rows.map (padRow width)).flatten.toArray

/-- The sizes of a backward part, whose operands must agree. -/
def backwardLayout (x : FlashBackwardInput α) : Except Failure Layout := do
  let l ← layout x.q x.k x.v
  ensure (x.dOut.type.shape = x.out.type.shape
      && x.out.type.numElements = l.heads * l.queries * l.valueDepth)
    (.flash (.outputMismatch x.dOut.type.shape x.out.type.shape))
  ensure (x.lse.size = l.heads * l.queries)
    (.flash (.logSumLength x.lse.size (l.heads * l.queries)))
  ensure (x.dOut.isContiguous && x.out.isContiguous && x.lse.isContiguous)
    (.flash .scatteredBuffers)
  return l

/-- The number of elements of all gradients, which have the given widths. -/
def Layout.gradientSize (l : Layout) (width valueWidth : Nat) : Nat :=
  l.heads * l.queries * width + l.heads * l.keys * width + l.heads * l.keys * valueWidth

/-- The gradients of all heads; none if they have no elements. -/
def gradients (l : Layout) (r : BackwardRows α) (scale : α) (causal : Bool)
    (width valueWidth : Nat) : Except Failure (List (HeadGradients α)) :=
  if l.gradientSize width valueWidth = 0 then .ok []
  else (List.range l.heads).mapM (headGradients l r scale causal)

/-- The backward part on the host. -/
def backward (alignment : Nat) (x : FlashBackwardInput α) (scale : α) (causal : Bool) :
    Except Failure (FlashGradients α) := do
  let l ← backwardLayout x
  let r : BackwardRows α := {
    dOut := ← x.dOut.rows l.valueDepth
    q := ← x.q.rows l.depth
    k := ← x.k.rows l.depth
    v := ← x.v.rows l.valueDepth
    out := ← x.out.rows l.valueDepth
    lse := ← x.lse.rows 1 }
  let width := paddedWidth alignment l.depth
  let valueWidth := paddedWidth alignment l.valueDepth
  let heads ← gradients l r scale causal width valueWidth
  return {
    dq := ← paddedTensor x.q width (heads.map (·.queries)).flatten
    dk := ← paddedTensor x.k width (heads.map (·.keys)).flatten
    dv := ← paddedTensor x.v valueWidth (heads.map (·.values)).flatten }

/-- The number of keys in a block unless another one is asked for. -/
def standardBlockSize : Nat := 64

/-- Panics unless the buffers of a forward part can exist: those of the output, of the logarithms,
and of the scores of one block. -/
def Layout.reserveForward (l : Layout) (blockSize : Nat) : Except Failure Unit := do
  reserve (l.heads * l.queries * l.valueDepth)
  reserve (l.heads * l.queries)
  reserve blockSize

/-- Panics unless the buffers of the padded gradients can exist. -/
def Layout.reserveBackward (l : Layout) (alignment : Nat) : Except Failure Unit := do
  reserve (l.heads * l.queries * paddedWidth alignment l.depth)
  reserve (l.heads * l.keys * paddedWidth alignment l.depth)
  reserve (l.heads * l.keys * paddedWidth alignment l.valueDepth)

/-- The kernel that runs on the host and is taken for one on the configured hardware. -/
def reference (config : FlashConfig) (blockSize : Nat) (probe : Bool) : FlashKernel α where
  name := "reference-flash"
  probe := probe
  deviceKind := config.deviceKind
  forward q k v scale causal := do
    let l ← layout q k v
    l.reserveForward (max blockSize 1)
    forward (max blockSize 1) q k v scale causal
  backward input scale causal := do
    let l ← backwardLayout input
    l.reserveBackward config.headDimAlignment
    backward config.headDimAlignment input scale causal

end Flash

end TraceSubstitution
