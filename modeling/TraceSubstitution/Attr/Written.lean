import TraceSubstitution.Attr.Attrs
import TraceSubstitution.Json.Double

/-!
# Written forms of static arguments

The value of a static argument as a JSON value: an object with one member, whose
name says of what sort the value is. An unset value is written as a text.
-/

namespace TraceSubstitution

namespace AttrValue

/-- A value as a JSON value. -/
def toJson : AttrValue → Json
  | bool b => .object [(some "bool", .bool b)]
  | int i => .object [(some "int", .ofInt i.toInt)]
  | float x => .object [(some "float", .ofFloat x)]
  | unset => .ofText "none"

/-- The value that a JSON value stands for. -/
def ofJson? : Json → Option AttrValue
  | .object [(some "bool", .bool b)] => some (bool b)
  | .object [(some "int", j)] => j.int?.map (int ∘ Int64.ofInt)
  | .object [(some "float", j)] => j.float?.map float
  | .string (some "none") => some unset
  | _ => none

end AttrValue

/-- Static arguments as a JSON value. -/
def Attrs.toJson (attrs : Attrs) : Json :=
  .object (attrs.toList.map fun (name, v) => (some name, v.toJson))

end TraceSubstitution
