import TraceSubstitution.Json.Value
import TraceSubstitution.Text.Decimal

/-!
# Double-precision numbers in JSON texts

A double-precision number is written with the fewest digits that read back as the
same number, and always with an exponent, so that it is not taken for a whole
number. JSON has no literals for infinities and for what is not a number; they
are written as texts.
-/

namespace TraceSubstitution

namespace Json

/-- A double-precision number as a value. -/
def ofFloat (x : Float) : Json :=
  match BinaryParts.ofFloat x with
  | .finite negative 0 _ => number ⟨negative, 0, 0, false⟩
  | .finite negative m q =>
    let d := Decimal.shortest m q
    number ⟨negative, d.digits, d.exponent, false⟩
  | _ => ofText (NumberStyle.plain.write x)

/-- The double-precision number nearest to a literal. -/
def float? : Json → Option Float
  | number n =>
    let x := Float.ofScientific n.mantissa (n.exponent < 0) n.exponent.natAbs
    some (if n.negative then -x else x)
  | string (some "NaN") => some (0 / 0)
  | string (some "inf") => some (1 / 0)
  | string (some "-inf") => some (-1 / 0)
  | _ => none

end Json

end TraceSubstitution
