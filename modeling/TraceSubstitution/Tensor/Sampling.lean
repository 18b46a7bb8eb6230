import TraceSubstitution.Random.ChaCha
import TraceSubstitution.Scalar.Single
import TraceSubstitution.Tensor.Tensor

/-!
# Normally distributed tensors

Two points of the unit interval give two independent normal values: the
logarithm of the first is a radius, the second an angle. The words of the random
stream are used in pairs, and the last value of the last pair is dropped if the
number of elements is odd.
-/

namespace TraceSubstitution

/-- The full angle, in single precision. -/
def fullAngle : Float32 := 2.0 * Float32.ofBits 0x40490fdb

/-- The two values with standard deviation `std` that a pair of random words stands for. The
first word is kept off zero, where there is no logarithm. -/
def normalPair (std : Float32) (u v : UInt32) : Float32 × Float32 :=
  let u := Single.max (Single.unitInterval u) (Float32.ofBits 0x00800000)
  let radius := (-2.0 * u.log).sqrt
  let angle := fullAngle * Single.unitInterval v
  (radius * angle.cos * std, radius * angle.sin * std)

/-- The values that the pairs of a list of random words stand for. -/
def normalValues (std : Float32) : List UInt32 → List Float32
  | u :: v :: words =>
    let (x, y) := normalPair std u v
    x :: y :: normalValues std words
  | _ => []

theorem length_normalValues (std : Float32) :
    ∀ words : List UInt32, (normalValues std words).length = words.length / 2 * 2
  | [] => rfl
  | [_] => by simp [normalValues]
  | _ :: _ :: words => by
    simp [normalValues, length_normalValues std words]
    omega

/-- A tensor of independent normal values with standard deviation `std`. -/
def Tensor.normal (type : TensorType) (std : Float32) (seed : UInt64) : Tensor Float32 :=
  let n := type.numElements
  let values := (normalValues std (randomWords seed ((n + 1) / 2 * 2))).take n
  Tensor.dense type (values.map (Scalar.narrow type.dtype)).toArray (by
    have : (n + 1) / 2 * 2 / 2 * 2 = (n + 1) / 2 * 2 := by omega
    simp [values, length_normalValues, length_randomWords]
    omega)

end TraceSubstitution
