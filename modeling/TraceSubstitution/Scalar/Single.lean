import TraceSubstitution.Scalar.Basic
import TraceSubstitution.Scalar.Rounding

/-!
# Single-precision scalars

Single-precision numbers as scalars. Every operation rounds once, to the nearest
number and to the even one in the middle. Sums start from the negative zero,
which is neutral for all numbers. The larger of two values is a number whenever
one of them is.
-/

namespace TraceSubstitution

namespace Single

/-- The bit of the sign. -/
def signBit : Nat := 0x80000000

/-- Rounds to the values of an element type; the sign stays. -/
def round (d : DType) (x : Float32) : Float32 :=
  let bits := x.toBits.toNat
  Float32.ofBits (UInt32.ofNat (bits / signBit * signBit + Magnitude.round d (bits % signBit)))

/-- The larger of two values, or the one that is a number. -/
def max (x y : Float32) : Float32 :=
  if x.isNaN then y else if y.isNaN then x else if x < y then y else x

/-- Two to the power of minus 24. -/
def grain : Float32 := Float32.ofBits 0x33800000

/-- The point of the unit interval given by the upper 24 bits of a word. -/
def unitInterval (word : UInt32) : Float32 := (word >>> 8).toFloat32 * grain

end Single

instance : Scalar Float32 where
  zero := 0.0
  sumStart := -0.0
  one := 1.0
  lowest := Float32.ofBits 0xff800000
  exp := Float32.exp
  log := Float32.log
  abs := Float32.abs
  max := Single.max
  same x y := x == y
  less x y := x < y
  round := Single.round
  ofFloat := Float.toFloat32
  unitInterval := Single.unitInterval

end TraceSubstitution
