import TraceSubstitution.Tensor.DType

/-!
# Rounding single-precision patterns

The magnitude of a single-precision number is the pattern of its bits without the
sign, and patterns are ordered like the numbers they stand for. Dropping the last
`s` bits of a pattern narrows its significand by `s` bits; a carry out of the
significand runs into the exponent, which is again the right pattern. Rounding to
an element type is therefore rounding a pattern to a multiple of `spacing s`, where
`s` depends on the exponent only, together with the cases in which nothing of the
significand is left.
-/

namespace TraceSubstitution

namespace Magnitude

/-- The pattern of infinity; larger patterns are not numbers. -/
def infinity : Nat := 0x7f800000

/-- The spacing of the patterns whose last `s` bits are zero. -/
def spacing (s : Nat) : Nat := Nat.pow 2 s

/-- The exponent field of a pattern. -/
def exponent (n : Nat) : Nat := n / spacing 23

/-- The nearest multiple of `spacing s`, a half going to the even multiple. -/
def nearestEven (s n : Nat) : Nat :=
  (n + (spacing s / 2 - 1) + n / spacing s % 2) / spacing s * spacing s

/-- The nearest multiple of `spacing s`, a half going up. -/
def nearestAway (s n : Nat) : Nat := (n + spacing s / 2) / spacing s * spacing s

/-- Rounding to half precision. Below the smallest normal number the spacing stays the same, so
more bits are dropped; beyond the largest number lies infinity. -/
def toHalf (n : Nat) : Nat :=
  if infinity < n then n
  else if exponent n < 102 then 0
  else if exponent n = 102 then if n % spacing 23 = 0 then 0 else 103 * spacing 23
  else if exponent n < 113 then nearestEven (126 - exponent n) n
  else if 0x47800000 ≤ nearestEven 13 n then infinity
  else nearestEven 13 n

/-- Rounding to the upper half of single precision. -/
def toUpperHalf (n : Nat) : Nat := if infinity < n then n else nearestEven 16 n

/-- Rounding to an integer, a half going away from zero. -/
def toInteger (n : Nat) : Nat :=
  if 150 ≤ exponent n then n
  else if exponent n < 126 then 0
  else if exponent n = 126 then 127 * spacing 23
  else nearestAway (150 - exponent n) n

/-- Rounding to an element type. -/
def round : DType → Nat → Nat
  | .f32, n => n
  | .f16, n => toHalf n
  | .bf16, n => toUpperHalf n
  | .i32, n => toInteger n

end Magnitude

end TraceSubstitution
