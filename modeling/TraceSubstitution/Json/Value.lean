/-!
# JSON values

A `Json` value keeps what its text said as far as a reader of settings can tell
the difference: the members of an object in order and with repetitions, the sign
of a zero, and whether a number was written as a whole number. A string literal
may hold an unpaired surrogate; such a literal is well formed but stands for no
text, so it is kept apart as `none`.
-/

namespace TraceSubstitution

/-- The number `± mantissa · 10 ^ exponent`. -/
structure JsonNumber where
  /-- Whether the literal starts with a minus sign. -/
  negative : Bool
  /-- All digits of the literal without the point. -/
  mantissa : Nat
  /-- The power of ten that the last digit counts. -/
  exponent : Int
  /-- Whether the literal has neither a fraction nor an exponent. -/
  whole : Bool
deriving DecidableEq

/-- The contents of a JSON text. -/
inductive Json where
  | null
  | bool (b : Bool)
  | number (n : JsonNumber)
  | string (s : Option String)
  | array (items : List Json)
  | object (members : List (Option String × Json))

namespace JsonNumber

/-- A natural number as it is read from its digits. -/
def ofNat (n : Nat) : JsonNumber := ⟨false, n, 0, true⟩

/-- An integer as it is read from its sign and digits. -/
def ofInt (i : Int) : JsonNumber := ⟨i < 0, i.natAbs, 0, true⟩

/-- The natural number that a literal stands for, if it is written as one. -/
def toNat? (n : JsonNumber) : Option Nat :=
  if n.whole && !n.negative then some n.mantissa else none

/-- The integer that a literal stands for, if it is written as one. -/
def toInt? (n : JsonNumber) : Option Int :=
  if n.whole then some (if n.negative then -n.mantissa else n.mantissa) else none

@[simp] theorem toNat?_ofNat (n : Nat) : (ofNat n).toNat? = some n := rfl

end JsonNumber

namespace Json

/-- A text as a value. -/
def ofText (s : String) : Json := string (some s)

/-- A natural number as a value. -/
def ofNat (n : Nat) : Json := number (.ofNat n)

/-- An integer as a value. -/
def ofInt (i : Int) : Json := number (.ofInt i)

/-- The text that a string literal stands for. -/
def text? : Json → Option String
  | string s => s
  | _ => none

/-- The natural number below `bound` that a number literal stands for. -/
def natBelow? (bound : Nat) : Json → Option Nat
  | number n => n.toNat?.filter (· < bound)
  | _ => none

/-- The integer that a number literal stands for. -/
def int? : Json → Option Int
  | number n => n.toInt?
  | _ => none

@[simp] theorem natBelow?_ofNat {bound n : Nat} (h : n < bound) :
    (ofNat n).natBelow? bound = some n := by
  simp [natBelow?, ofNat, h]

end Json

end TraceSubstitution
