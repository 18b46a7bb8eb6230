import TraceSubstitution.Text.Decimal

/-!
# Values of static arguments

A static argument is a truth value, a 64-bit integer, a double-precision number
or unset. An argument is declared with a kind. A kind accepts the values of its
own sort; the two kinds of number also accept integers, which are then widened,
and only the optional kind accepts an unset value.
-/

namespace TraceSubstitution

/-- The declared kind of a static argument. -/
inductive AttrKind where
  | bool
  | int
  | float
  /-- A number that may be left unset. -/
  | optionalFloat
deriving DecidableEq

/-- The value of a static argument. -/
inductive AttrValue where
  | bool (b : Bool)
  | int (i : Int64)
  | float (x : Float)
  | unset

namespace AttrKind

/-- The name of a kind in messages. -/
def text : AttrKind → String
  | bool => "Bool"
  | int => "Int"
  | float => "Float"
  | optionalFloat => "OptionalFloat"

/-- Whether a value may be bound to an argument of this kind. -/
def accepts : AttrKind → AttrValue → Bool
  | bool, .bool _ => true
  | int, .int _ => true
  | float, .float _ | float, .int _ => true
  | optionalFloat, .float _ | optionalFloat, .int _ | optionalFloat, .unset => true
  | _, _ => false

end AttrKind

namespace AttrValue

/-- The kind that a value has by itself. -/
def kind : AttrValue → AttrKind
  | bool _ => .bool
  | int _ => .int
  | float _ => .float
  | unset => .optionalFloat

/-- A value as an argument of kind `k` holds it: integers widen where a number is declared. -/
def widen (k : AttrKind) (v : AttrValue) : AttrValue :=
  match k, v with
  | .float, int i => float i.toFloat
  | .optionalFloat, int i => float i.toFloat
  | _, v => v

/-- A value as it is written in traces. -/
def text : AttrValue → String
  | bool b => toString b
  | int i => toString i.toInt
  | float x => NumberStyle.plain.write x
  | unset => "none"

/-- A value as it is written in messages: `Int(3)`. -/
def detail : AttrValue → String
  | bool b => "Bool(" ++ toString b ++ ")"
  | int i => "Int(" ++ toString i.toInt ++ ")"
  | float x => "Float(" ++ NumberStyle.explicit.write x ++ ")"
  | unset => "None"

theorem widen_widen (k : AttrKind) (v : AttrValue) : (v.widen k).widen k = v.widen k := by
  cases k <;> cases v <;> rfl

theorem accepts_widen {k : AttrKind} {v : AttrValue} (h : k.accepts v = true) :
    k.accepts (v.widen k) = true := by
  cases k <;> cases v <;> simp_all [AttrKind.accepts, widen]

end AttrValue

/-- A looked-up value as it is written in messages: `None` or `Some(Int(3))`. -/
def foundText : Option AttrValue → String
  | none => "None"
  | some v => "Some(" ++ v.detail ++ ")"

end TraceSubstitution
