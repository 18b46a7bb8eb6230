import TraceSubstitution.Json.Fields
import TraceSubstitution.Tensor.TensorType

/-!
# Written forms of tensor types

Shapes, element types and devices as JSON values. Sizes are 64-bit numbers and
device ordinals 32-bit numbers. A shape that is read may lack axes.
-/

namespace TraceSubstitution

/-- The bound below which sizes lie. -/
def sizeBound : Nat := 0x10000000000000000

namespace Shape

/-- A shape as a JSON value. -/
def toJson (s : Shape) : Json := .object [(some "dims", .array (s.dims.map .ofNat))]

/-- The shape that a JSON value stands for. -/
def ofJson? (j : Json) : Option Shape := do
  match ← j.fields? ["dims"] with
  | [dims] => return ⟨← Json.required? (Json.list? (Json.natBelow? sizeBound)) dims⟩
  | _ => none

end Shape

/-- An element type as a JSON value. -/
def DType.toJson (d : DType) : Json := .ofText d.text

/-- The element type that a JSON value stands for. -/
def DType.ofJson? (j : Json) : Option DType := do ofText? (← j.name?)

/-- A kind of hardware as a JSON value. -/
def DeviceKind.toJson (k : DeviceKind) : Json := .ofText k.text

/-- The kind of hardware that a JSON value stands for. -/
def DeviceKind.ofJson? (j : Json) : Option DeviceKind := do ofText? (← j.name?)

namespace Device

/-- A device as a JSON value. -/
def toJson (d : Device) : Json :=
  .object [(some "kind", d.kind.toJson), (some "index", .ofNat d.index.toNat)]

/-- The device that a JSON value stands for. -/
def ofJson? (j : Json) : Option Device := do
  match ← j.fields? ["kind", "index"] with
  | [kind, index] =>
    let kind ← Json.required? DeviceKind.ofJson? kind
    let index ← Json.required? (Json.natBelow? 0x100000000) index
    return ⟨kind, UInt32.ofNat index⟩
  | _ => none

end Device

end TraceSubstitution
