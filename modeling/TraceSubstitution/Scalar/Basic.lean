import TraceSubstitution.Tensor.DType

/-!
# Scalars

The elements of tensors are scalars. `Scalar α` is what the operators need of
them and no more: the operations and constants, without any law. The attention
kernels can thus be read over single-precision numbers, over a field with an
exponential, or over any other interpretation.
-/

namespace TraceSubstitution

/-- The operations on the elements of tensors. -/
class Scalar (α : Type) extends Add α, Sub α, Mul α, Div α where
  /-- The number zero. -/
  zero : α
  /-- The number that the sum of a list starts from. -/
  sumStart : α
  /-- The number one. -/
  one : α
  /-- The value below all numbers. -/
  lowest : α
  /-- The exponential. -/
  exp : α → α
  /-- The natural logarithm. -/
  log : α → α
  /-- The absolute value. -/
  abs : α → α
  /-- The larger of two values. -/
  max : α → α → α
  /-- Whether two values are the same number. -/
  same : α → α → Bool
  /-- Whether the first value is the smaller one. -/
  less : α → α → Bool
  /-- The nearest value that an element type holds. -/
  round : DType → α → α
  /-- A static argument as a scalar. -/
  ofFloat : Float → α
  /-- The point of the unit interval that a random word stands for. -/
  unitInterval : UInt32 → α

namespace Scalar

variable {α : Type} [Scalar α]

/-- The nearest value that an element type holds; single precision holds them all. -/
def narrow : DType → α → α
  | .f32, x => x
  | d, x => round d x

/-- The sum of a list, from left to right. -/
def sum (xs : List α) : α := xs.foldl (· + ·) sumStart

/-- The products of two lists, added up from left to right. -/
def dot (xs ys : List α) : α := sum (List.zipWith (· * ·) xs ys)

/-- The largest value of a list. -/
def maximum (xs : List α) : α := xs.foldl max lowest

/-- Adds `c` times the second list to the first one. -/
def addScaled (xs : List α) (c : α) (ys : List α) : List α :=
  List.zipWith (fun x y => x + c * y) xs ys

@[simp] theorem length_addScaled (xs : List α) (c : α) (ys : List α) :
    (addScaled xs c ys).length = min xs.length ys.length := by
  simp [addScaled]

end Scalar

end TraceSubstitution
