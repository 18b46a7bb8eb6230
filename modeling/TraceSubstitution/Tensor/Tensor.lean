import TraceSubstitution.Failure.Failure
import TraceSubstitution.Scalar.Basic
import TraceSubstitution.Tensor.Window

/-!
# Tensors

A `Tensor` is a window into a buffer of scalars together with its type. Taking a
range along an axis shares the buffer, so the elements of a tensor may be
scattered. There are two ways to read them: `elements` follows the steps and
always succeeds, and `block` takes one piece of the buffer and panics if the
tensor is scattered. `contiguous` copies a scattered tensor into a buffer of its
own.

Values are narrowed to the element type when a tensor is made. `reserve` is asked
for a buffer before elements are computed whose number does not follow from
tensors that exist.
-/

namespace TraceSubstitution

/-- A window into a buffer of scalars. -/
structure Tensor (α : Type) where
  /-- Shape, element type and device. -/
  type : TensorType
  /-- The steps along the axes. -/
  strides : List Nat
  /-- Where the first element lies. -/
  offset : Nat
  /-- The buffer. -/
  storage : Array α
  /-- The window lies in the buffer. -/
  window : IsWindow type.dims strides offset storage.size

/-- The number of elements that no buffer reaches: an element takes four bytes, and a buffer is
shorter than `2 ^ 63` bytes. -/
def bufferBound : Nat := 0x2000000000000000

/-- Panics unless a buffer of `size` elements can exist. -/
def reserve (size : Nat) : Except Failure Unit :=
  if size < bufferBound then .ok () else .error (.panic .tooLarge)

theorem reserve_eq_ok_iff {size : Nat} : reserve size = .ok () ↔ size < bufferBound := by
  unfold reserve
  split
  · next h => exact iff_of_true rfl h
  · next h => exact iff_of_false nofun h

/-- The `len` values of a buffer from `start` on. -/
def slice {α : Type} (data : Array α) (start len : Nat) : Except Failure (Array α) :=
  if start + len ≤ data.size then .ok (data.extract start (start + len))
  else .error (.panic .outOfBounds)

theorem slice_eq_ok {α : Type} {data : Array α} {start len : Nat}
    (h : start + len ≤ data.size) :
    slice data start len = .ok (data.extract start (start + len)) := if_pos h

namespace Tensor

variable {α : Type}

/-- The number of elements. -/
def size (t : Tensor α) : Nat := t.type.numElements

/-- Whether the elements lie in order in one piece of the buffer. -/
def isContiguous (t : Tensor α) : Bool := isDense t.type.dims t.strides

/-- The values at the positions of the elements. -/
def gathered (t : Tensor α) : List α :=
  (positions t.type.dims t.strides t.offset).attach.map fun ⟨p, hp⟩ =>
    have : p < t.storage.size := lt_of_mem_positions t.window hp
    t.storage[p]

/-- The elements, in row-major order. The axes of a tensor without elements are not walked: all
but one of them may be long. -/
def elements (t : Tensor α) : List α := if t.size = 0 then [] else t.gathered

/-- The elements as one piece of the buffer. -/
def block (t : Tensor α) : Except Failure (Array α) :=
  if t.isContiguous then slice t.storage t.offset t.size
  else .error (.panic .scattered)

/-- The dense tensor with the given elements. -/
def dense (type : TensorType) (xs : Array α) (h : xs.size = type.numElements) : Tensor α where
  type := type
  strides := type.shape.strides
  offset := 0
  storage := xs
  window := h ▸ isWindow_dense type.dims

theorem length_positions {dims strides : List Nat} (h : dims.length = strides.length)
    (offset : Nat) : (positions dims strides offset).length = volume dims := by
  induction dims generalizing strides offset with
  | nil => simp
  | cons d dims ih =>
    cases strides with
    | nil => simp at h
    | cons s strides =>
      have ih := fun offset => @ih strides (by simpa using h) offset
      simp [positions_cons, List.length_flatMap, ih, List.map_const', Nat.mul_comm]

theorem length_strides (t : Tensor α) : t.strides.length = t.type.dims.length := by
  obtain ⟨box, starts, hfits, hstrides, -, -⟩ := t.window
  rw [hstrides, length_rowMajor, hfits.length_eq]

theorem length_gathered (t : Tensor α) : t.gathered.length = t.size := by
  rw [gathered, List.length_map, List.length_attach, length_positions t.length_strides.symm]
  rfl

theorem elements_eq_gathered (t : Tensor α) : t.elements = t.gathered := by
  unfold elements
  split
  · next h => exact (List.eq_nil_of_length_eq_zero (t.length_gathered.trans h)).symm
  · rfl

@[simp] theorem length_elements (t : Tensor α) : t.elements.length = t.size := by
  rw [elements_eq_gathered, length_gathered]

/-- The same elements in a buffer of their own. -/
def contiguous (t : Tensor α) : Tensor α :=
  if t.isContiguous && t.offset == 0 && t.storage.size == t.size then t
  else dense t.type t.elements.toArray (by simp [size])

@[simp] theorem type_contiguous (t : Tensor α) : t.contiguous.type = t.type := by
  unfold contiguous; split <;> rfl

/-- The range of `len` from `start` on along an axis, sharing the buffer. -/
def narrow (t : Tensor α) (axis start len : Nat) : Except Failure (Tensor α) :=
  if axis < t.type.rank then
    if h : start + len ≤ t.type.dims.getD axis 0 then
      .ok {
        type := t.type.withShape ⟨t.type.dims.set axis len⟩
        strides := t.strides
        offset := t.offset + start * t.strides.getD axis 0
        storage := t.storage
        window := t.window.narrow h }
    else .error <| .ofCause <| .tensor <|
      .rangeExceeds start (start + len) axis (t.type.dims.getD axis 0)
  else .error <| .ofCause <| .tensor <| .axisOutOfRange axis t.type.rank

variable [Scalar α]

/-- The dense tensor with the given elements, narrowed to its element type. -/
def ofElements (type : TensorType) (xs : Array α) : Except Failure (Tensor α) :=
  if h : xs.size = type.numElements then
    .ok (dense type (xs.map (Scalar.narrow type.dtype)) (by simpa using h))
  else .error <| .ofCause <| .tensor <| .lengthMismatch xs.size type.dims

/-- The dense tensor with one value everywhere. -/
def full (type : TensorType) (x : α) : Tensor α :=
  dense type (Array.replicate type.numElements (Scalar.narrow type.dtype x)) (by simp)

/-- The dense tensor whose elements are `count` times one value. -/
def filled (type : TensorType) (count : Nat) (x : α) : Except Failure (Tensor α) :=
  if count = type.numElements then .ok (full type x)
  else .error <| .ofCause <| .tensor <| .lengthMismatch count type.dims

theorem filled_eq (type : TensorType) (count : Nat) (x : α) :
    filled type count x = ofElements type (Array.replicate count x) := by
  unfold filled ofElements
  split
  · next h => simp [full, h]
  · next h => simp [h]

/-- The dense tensor of zeros. -/
def zeros (type : TensorType) : Tensor α := full type Scalar.zero

/-- The elementwise sum of two tensors of one type. -/
def add (t u : Tensor α) : Except Failure (Tensor α) := do
  ensure (t.type = u.type) (.tensor (.unlikeOperands t.type u.type))
  ofElements t.type (List.zipWith (· + ·) t.elements u.elements).toArray

/-- The largest absolute difference of the elements of two tensors of one shape. -/
def maxAbsDiff (t u : Tensor α) : Except Failure α := do
  ensure (t.type.shape = u.type.shape) (.tensor (.incomparable t.type.shape u.type.shape))
  return (List.zipWith (fun x y => Scalar.abs (x - y)) t.elements u.elements).foldl
    Scalar.max Scalar.zero

end Tensor

end TraceSubstitution
