import TraceSubstitution.Tensor.Shape
import TraceSubstitution.Tensor.DType
import TraceSubstitution.Tensor.Device

/-!
# Tensor types

A `TensorType` is all that is known of a tensor without its elements: shape,
element type and device. Operators infer the types of their outputs from the
types of their operands, and tracing a program handles nothing else.
-/

namespace TraceSubstitution

/-- Shape, element type and device of a tensor. -/
structure TensorType where
  /-- The axis sizes. -/
  shape : Shape
  /-- The element type. -/
  dtype : DType
  /-- Where the tensor lives. -/
  device : Device
deriving DecidableEq

namespace TensorType

/-- The same element type and device with another shape. -/
def withShape (t : TensorType) (shape : Shape) : TensorType := { t with shape }

/-- The number of axes. -/
def rank (t : TensorType) : Nat := t.shape.rank

/-- The axis sizes. -/
def dims (t : TensorType) : List Nat := t.shape.dims

/-- The number of elements. -/
def numElements (t : TensorType) : Nat := t.shape.numElements

/-- The type as it is written in messages and traces: `f16[1, 2]@cuda:0`. -/
def text (t : TensorType) : String :=
  t.dtype.text ++ t.shape.text ++ "@" ++ t.device.text

@[simp] theorem shape_withShape (t : TensorType) (s : Shape) :
    (t.withShape s).shape = s := rfl

@[simp] theorem dtype_withShape (t : TensorType) (s : Shape) :
    (t.withShape s).dtype = t.dtype := rfl

@[simp] theorem device_withShape (t : TensorType) (s : Shape) :
    (t.withShape s).device = t.device := rfl

end TensorType

end TraceSubstitution
