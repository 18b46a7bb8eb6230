import TraceSubstitution.Tensor.Window
import TraceSubstitution.Failure.Failure

/-!
# Broadcasting a mask

A mask applies to the scores of every query and key. Its axes are matched with
those of the scores from the right; an axis of size one, and every axis that the
mask lacks, stands for all positions. Reading a dense mask with a step of zero
along such an axis repeats it: `broadcastStrides` gives the steps, and
`broadcast` reads one value for every score.
-/

namespace TraceSubstitution

/-- The steps along axes that are matched one by one. -/
def matchedStrides? : (source dense target : List Nat) → Option (List Nat)
  | d :: source, s :: dense, t :: target =>
    (if d = t then some s else if d = 1 then some 0 else none).bind fun step =>
      (matchedStrides? source dense target).map (step :: ·)
  | _, _, _ => some []

/-- The steps with which a dense mask of axes `source` is read for scores of axes `target`. -/
def broadcastStrides (source target : List Nat) : Except Failure (List Nat) := do
  let refused : Cause := .attention (.notBroadcastable source target)
  ensure (source.length ≤ target.length) refused
  let shape ← orPanic .noAxes (Shape.ofDims? source)
  let pad := target.length - source.length
  let matched ← orError refused (matchedStrides? source shape.strides (target.drop pad))
  return List.replicate pad 0 ++ matched

/-- The value of a dense mask for every score, read with the given steps. -/
def broadcast {α : Type} (data : Array α) (target strides : List Nat) :
    Except Failure (List α) :=
  if volume target = 0 then .ok []
  else (positions target strides 0).mapM fun p => orPanic .outOfBounds data[p]?

end TraceSubstitution
