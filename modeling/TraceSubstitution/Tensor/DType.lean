/-!
# Element types

The element type of a tensor says which values its elements may take. Elements
are always held at single precision; an element type only narrows them. Gradients
are defined for the floating-point types alone.
-/

namespace TraceSubstitution

/-- The element types a tensor may have. -/
inductive DType where
  /-- Single precision. -/
  | f32
  /-- Half precision: eleven significant bits. -/
  | f16
  /-- The upper half of single precision: eight significant bits. -/
  | bf16
  /-- Integers. -/
  | i32
deriving DecidableEq

namespace DType

/-- Whether the type is one of the floating-point types. -/
def isFloat : DType → Bool
  | f32 | f16 | bf16 => true
  | i32 => false

/-- The name of the type in messages, traces and configuration texts. -/
def text : DType → String
  | f32 => "f32"
  | f16 => "f16"
  | bf16 => "bf16"
  | i32 => "i32"

/-- All element types. -/
def all : List DType := [f32, f16, bf16, i32]

/-- The element type called `name`, if there is one. -/
def ofText? (name : String) : Option DType := all.find? (·.text = name)

@[simp] theorem ofText?_text (d : DType) : ofText? d.text = some d := by
  cases d <;> decide

end DType

end TraceSubstitution
