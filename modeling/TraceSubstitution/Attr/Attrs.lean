import TraceSubstitution.Attr.Value
import TraceSubstitution.Dict
import TraceSubstitution.Failure.Failure

/-!
# Static arguments of a call

The static arguments of a call are values under names. A typed reader returns the
value under a name if it is of the kind asked for: integers may be read as
numbers, and an optional number that is unset, or has no value at all, reads as
absent.
-/

namespace TraceSubstitution

/-- The static arguments of a call. -/
abbrev Attrs := Dict AttrValue

namespace Attrs

/-- The error of reading the value under `name` as one of kind `expected`. -/
def refusal {β : Type} (attrs : Attrs) (name : String) (expected : AttrKind) : Except Failure β :=
  .error (.ofCause (.argument (.wrongKind name expected (attrs.get? name))))

/-- Reads a truth value. -/
def bool (attrs : Attrs) (name : String) : Except Failure Bool :=
  match attrs.get? name with
  | some (.bool b) => .ok b
  | _ => attrs.refusal name .bool

/-- Reads an integer. -/
def int (attrs : Attrs) (name : String) : Except Failure Int64 :=
  match attrs.get? name with
  | some (.int i) => .ok i
  | _ => attrs.refusal name .int

/-- Reads a number; an integer is widened. -/
def float (attrs : Attrs) (name : String) : Except Failure Float :=
  match attrs.get? name with
  | some (.float x) => .ok x
  | some (.int i) => .ok i.toFloat
  | _ => attrs.refusal name .float

/-- Reads a number that may be unset. -/
def optionalFloat (attrs : Attrs) (name : String) : Except Failure (Option Float) :=
  match attrs.get? name with
  | none | some .unset => .ok none
  | some (.float x) => .ok (some x)
  | some (.int i) => .ok (some i.toFloat)
  | some (.bool _) => attrs.refusal name .optionalFloat

/-- Static arguments as they are written in traces: the names in order, each with its value. -/
def text (attrs : Attrs) : String :=
  "\x7b" ++ String.intercalate ", " (attrs.toList.map fun (name, v) => name ++ "=" ++ v.text)
    ++ "\x7d"

end Attrs

end TraceSubstitution
