/-!
# Shapes

A `Shape` is the list of axis sizes of a tensor, outermost first. Every tensor
that a program builds has at least one axis; the list itself may be empty, since
a shape can also be read from text. The functions that need a last axis are
therefore partial: `lastDim?` and `withLastDim?` answer `none` exactly on the
shape without axes.

`strides` are the row-major steps of a dense buffer: moving by one along an axis
skips as many elements as the axes after it span.
-/

namespace TraceSubstitution

/-- The axis sizes of a tensor, outermost first. -/
structure Shape where
  /-- The size of every axis. -/
  dims : List Nat
deriving DecidableEq

/-- How many elements axes of the given sizes span: the product of the sizes. -/
def volume : List Nat → Nat
  | [] => 1
  | d :: dims => d * volume dims

@[simp] theorem volume_nil : volume [] = 1 := rfl

@[simp] theorem volume_cons (d : Nat) (dims : List Nat) :
    volume (d :: dims) = d * volume dims := rfl

/-- The row-major steps of a dense buffer with axes `dims`. -/
def rowMajor : List Nat → List Nat
  | [] => []
  | _ :: dims => volume dims :: rowMajor dims

@[simp] theorem rowMajor_nil : rowMajor [] = [] := rfl

@[simp] theorem rowMajor_cons (d : Nat) (dims : List Nat) :
    rowMajor (d :: dims) = volume dims :: rowMajor dims := rfl

@[simp] theorem length_rowMajor (dims : List Nat) :
    (rowMajor dims).length = dims.length := by
  induction dims with
  | nil => rfl
  | cons d dims ih => simp [ih]

/-- A list of sizes as it is written in messages and traces: `[2, 3]`. -/
def dimsText (dims : List Nat) : String :=
  "[" ++ String.intercalate ", " (dims.map toString) ++ "]"

namespace Shape

/-- The shape with axes `dims`; a shape that a program builds has an axis. -/
def ofDims? : List Nat → Option Shape
  | [] => none
  | d :: dims => some ⟨d :: dims⟩

theorem ofDims?_eq_some_iff {dims : List Nat} {s : Shape} :
    ofDims? dims = some s ↔ dims ≠ [] ∧ s = ⟨dims⟩ := by
  cases dims <;> simp [ofDims?, eq_comm]

/-- The number of axes. -/
def rank (s : Shape) : Nat := s.dims.length

/-- The size of the last axis. -/
def lastDim? (s : Shape) : Option Nat := s.dims.getLast?

/-- The same shape with its last axis of size `size`. -/
def withLastDim? (s : Shape) (size : Nat) : Option Shape :=
  if s.dims = [] then none else some ⟨s.dims.dropLast ++ [size]⟩

/-- The number of elements. It is not bounded: the product of the sizes is taken to fit into a
machine word. -/
def numElements (s : Shape) : Nat := volume s.dims

/-- The row-major steps of a dense tensor of this shape. -/
def strides (s : Shape) : List Nat := rowMajor s.dims

/-- The shape as it is written in messages and traces. -/
def text (s : Shape) : String := dimsText s.dims

theorem lastDim?_eq_none_iff {s : Shape} : s.lastDim? = none ↔ s.rank = 0 := by
  cases s with
  | mk dims => cases dims <;> simp [lastDim?, rank]

theorem withLastDim?_eq_none_iff {s : Shape} {size : Nat} :
    s.withLastDim? size = none ↔ s.rank = 0 := by
  cases s with
  | mk dims => cases dims <;> simp [withLastDim?, rank]

@[simp] theorem length_strides (s : Shape) : s.strides.length = s.rank :=
  length_rowMajor s.dims

end Shape

end TraceSubstitution
