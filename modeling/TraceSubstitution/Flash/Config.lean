import TraceSubstitution.Failure.Failure
import TraceSubstitution.Json.Reader
import TraceSubstitution.Tensor.Written

/-!
# What the fused kernel supports

The configuration of the fused executor says which calls of attention its kernel
can run. Every field has a default, so any part of it may be left out.
-/

namespace TraceSubstitution

/-- The calls of attention that the fused kernel can run. -/
structure FlashConfig where
  /-- The widths of queries, keys and values. -/
  headDims : List Nat
  /-- The element type. -/
  dtype : DType
  /-- The kind of hardware. -/
  deviceKind : DeviceKind
  /-- Gradients have their width rounded up to a multiple of this. -/
  headDimAlignment : Nat
deriving DecidableEq

namespace FlashConfig

/-- The configuration that is used where nothing else is said. -/
def standard : FlashConfig := ⟨[64, 128, 256], .f16, .cuda, 8⟩

/-- Whether queries, keys and values may have the given width. -/
def supportsHeadDim (c : FlashConfig) (width : Nat) : Bool := c.headDims.contains width

/-- The configuration that a JSON value stands for. -/
def ofJson? (j : Json) : Option FlashConfig := do
  match ← j.fields? ["head_dims", "dtype", "device_kind", "head_dim_alignment"] with
  | [headDims, dtype, deviceKind, alignment] =>
    return {
      headDims := ← Json.withDefault? standard.headDims
        (Json.list? (Json.natBelow? sizeBound)) headDims
      dtype := ← Json.withDefault? standard.dtype DType.ofJson? dtype
      deviceKind := ← Json.withDefault? standard.deviceKind DeviceKind.ofJson? deviceKind
      headDimAlignment := ← Json.withDefault? standard.headDimAlignment
        (Json.natBelow? sizeBound) alignment }
  | _ => none

/-- Reads a configuration. -/
def parse (text : String) : Except Failure FlashConfig :=
  orError (.flash .invalidConfig) ((Json.read? text).bind ofJson?)

/-- A configuration as a JSON value. -/
def toJson (c : FlashConfig) : Json :=
  .object [(some "head_dims", .array (c.headDims.map .ofNat)), (some "dtype", c.dtype.toJson),
    (some "device_kind", c.deviceKind.toJson),
    (some "head_dim_alignment", .ofNat c.headDimAlignment)]

end FlashConfig

end TraceSubstitution
