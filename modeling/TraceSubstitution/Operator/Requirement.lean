import TraceSubstitution.Failure.Failure

/-!
# Requirements on operand types

The checks that type inference is made of. Each one holds or refuses the call
with the names of the operands it compared.
-/

namespace TraceSubstitution

namespace Require

/-- The operand has `expected` axes. -/
def rank (name : String) (type : TensorType) (expected : Nat) : Except Failure Unit :=
  ensure (type.rank = expected) (.requirement (.rank name expected type.shape))

/-- Two operands have the same element type. -/
def sameDType (lhsName : String) (lhs : TensorType) (rhsName : String) (rhs : TensorType) :
    Except Failure Unit :=
  ensure (lhs.dtype = rhs.dtype) (.requirement (.dtype lhsName lhs.dtype rhsName rhs.dtype))

/-- Two operands live on the same device. -/
def sameDevice (lhsName : String) (lhs : TensorType) (rhsName : String) (rhs : TensorType) :
    Except Failure Unit :=
  ensure (lhs.device = rhs.device)
    (.requirement (.device lhsName lhs.device rhsName rhs.device))

/-- Two operands have the same shape. -/
def sameShape (lhsName : String) (lhs : TensorType) (rhsName : String) (rhs : TensorType) :
    Except Failure Unit :=
  ensure (lhs.shape = rhs.shape) (.requirement (.shape lhsName lhs.shape rhsName rhs.shape))

/-- The size of an axis, which must exist. -/
def dim (type : TensorType) (axis : Nat) : Except Failure Nat :=
  orPanic .outOfBounds type.dims[axis]?

/-- Two operands have the same size along an axis that both of them must have. -/
def sameDim (axis : Nat) (lhsName : String) (lhs : TensorType) (rhsName : String)
    (rhs : TensorType) : Except Failure Unit := do
  let l ← dim lhs axis
  let r ← dim rhs axis
  ensure (l = r) (.requirement (.dim axis lhsName l rhsName r))

/-- The size of the last axis, which must exist. -/
def lastDim (type : TensorType) : Except Failure Nat :=
  orPanic .outOfBounds type.shape.lastDim?

/-- The type with its last axis, which must exist, of size `size`. -/
def withLastDim (type : TensorType) (size : Nat) : Except Failure TensorType :=
  (orPanic .outOfBounds (type.shape.withLastDim? size)).map type.withShape

end Require

end TraceSubstitution
