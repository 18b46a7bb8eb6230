import Mathlib
import TraceSubstitution.Proofs.Scalar.Rounding
import TraceSubstitution.Scalar.Single

/-!
# Patterns of single-precision numbers

A single-precision number is its pattern of bits, of which there is one for what is not a
number. A pattern falls into a sign, an exponent and a mantissa, and is put together from
them again; so a number is found again under its pattern (`Single.ofBits_toBits`), and the
pattern of a number or infinity is found again as it was (`Single.toBits_ofBits`).

Rounding works on the magnitude of the pattern and keeps its sign. It goes to infinity at
most, so it never turns a number into something else (`Single.isNaN_round`), and it does
nothing when it is repeated: `Single.round_round`.
-/

namespace TraceSubstitution

namespace Single

open Float.Model Float.Model.UnpackedFloat

theorem toBitVec_ofBitVec (b : BitVec 1) : (Sign.ofBitVec b).toBitVec = b := by
  revert b
  decide

/-- A pattern is put together from its parts. -/
theorem packComponents_unpack (b : BitVec Format.binary32.numBits) :
    packComponents .binary32 (Sign.ofBitVec (unpackSign b)) (unpackExponent b) (unpackMantissa b) =
      b := by
  rw [packComponents, toBitVec_ofBitVec]
  unfold unpackSign unpackExponent unpackMantissa
  ext i hi
  grind

/-- The implicit bit stands in front of the mantissa. -/
theorem toNat_implicit (m : BitVec 23) : (1#1 ++ m).toNat = 2 ^ 23 + m.toNat := by
  rw [BitVec.toNat_append, ← Nat.shiftLeft_add_eq_or_of_lt m.isLt]
  rfl

theorem log2_mantissa {m : Nat} (hm : m ≠ 0) : m.log2 + 1 = 24 ↔ 2 ^ 23 ≤ m ∧ m < 2 ^ 24 := by
  rw [← Nat.le_log2 hm, ← Nat.log2_lt hm]
  omega

/-- A number beyond the largest exponent is packed as infinity, one without the leading bit of the
mantissa as one below the smallest normal number. -/
theorem pack_finite (s : Sign) {m : Nat} (hm : 0 < m) (e : Int) :
    pack .binary32 (.finite s m e hm) =
      if 255 ≤ (e + 150).toNat then packComponents .binary32 s (-1#8) 0#23
      else if m.log2 + 1 = 24 then
        packComponents .binary32 s (BitVec.ofNat 8 (e + 150).toNat) (BitVec.ofNat 23 m)
      else packComponents .binary32 s 0#8 (BitVec.ofNat 23 m) := by
  have hbiased : e + (127 : Nat) + (23 : Nat) = e + 150 := Int.add_assoc e 127 23
  have hbound : 2 ^ 8 ≤ (e + 150).toNat + 1 ↔ 255 ≤ (e + 150).toNat := by omega
  change (if 2 ^ 8 ≤ (e + (127 : Nat) + (23 : Nat)).toNat + 1 then _
    else if m.log2 + 1 = 24 then packComponents .binary32 s
      (BitVec.ofNat 8 (e + (127 : Nat) + (23 : Nat)).toNat) _ else _) = _
  simp only [hbiased, hbound]
  rfl

theorem pack_unpacked {b : BitVec Format.binary32.numBits} {e : BitVec 8} {m : BitVec 23}
    (he : unpackExponent b = e) (hm : unpackMantissa b = m) :
    packComponents .binary32 (Sign.ofBitVec (unpackSign b)) e m = b := by
  subst he hm
  exact packComponents_unpack b

/-- A pattern with one representation for what is not a number is found again. -/
theorem pack_unpack {b : BitVec Format.binary32.numBits} (h : Format.binary32.Valid b) :
    pack .binary32 (unpack .binary32 b) = b := by
  fun_cases unpack .binary32 b with
  | case1 mantissa exponent _ sign hexponent hmantissa => exact pack_unpacked hexponent hmantissa
  | case2 mantissa exponent hexponent hmantissa => exact (h.eq_packedNaN hexponent hmantissa).symm
  | case3 mantissa exponent _ sign _ hexponent hmantissa => exact pack_unpacked hexponent hmantissa
  | case4 mantissa exponent value _ sign _ hexponent hmantissa =>
    have hvalue : value + 1 + 150 = 1 := by
      simp only [value, hexponent]
      rfl
    have hlog : ¬(mantissa.toNat.log2 + 1 = 24) := by
      rw [log2_mantissa (by simpa [BitVec.toNat_eq] using hmantissa)]
      exact fun hge => Nat.not_le.2 mantissa.isLt hge.1
    rw [pack_finite, hvalue, if_neg (by decide), if_neg hlog]
    refine pack_unpacked hexponent ?_
    rw [BitVec.ofNat_toNat, BitVec.setWidth_eq]
  | case5 mantissa exponent value _ sign hinfinity hzero =>
    have hexponent : exponent.toNat ≠ 255 := fun heq => hinfinity (BitVec.eq_of_toNat_eq heq)
    have hbound : exponent.toNat < 2 ^ 8 := exponent.isLt
    have hlt : mantissa.toNat < 2 ^ 23 := mantissa.isLt
    have hvalue : (value + 150).toNat = exponent.toNat := by
      change ((exponent.toNat : Int) - (127 + 23) + 150).toNat = _
      omega
    have hlog : (1#1 ++ mantissa).toNat.log2 + 1 = 24 := by
      rw [log2_mantissa] <;> rw [toNat_implicit] <;> omega
    rw [pack_finite, hvalue, if_neg (by omega), if_pos hlog]
    refine pack_unpacked ?_ ?_
    · rw [BitVec.ofNat_toNat, BitVec.setWidth_eq]
    · refine BitVec.eq_of_toNat_eq ?_
      rw [BitVec.toNat_ofNat, toNat_implicit, Nat.add_mod_left, Nat.mod_eq_of_lt hlt]

/-- A number is found again under its pattern. -/
theorem ofBits_toBits (x : Float32) : Float32.ofBits x.toBits = x := by
  obtain ⟨⟨bits, valid⟩⟩ := x
  change Float32.ofModel ⟨UInt32.ofBitVec (pack .binary32 (unpack .binary32 bits.toBitVec)), _⟩ = _
  congr
  exact pack_unpack valid

theorem toNat_unpackExponent (u : UInt32) :
    (@unpackExponent .binary32 u.toBitVec).toNat = u.toNat % signBit / 2 ^ 23 := by
  change (u.toNat >>> 23) % 2 ^ 8 = _
  rw [Nat.shiftRight_eq_div_pow, signBit]
  omega

theorem toNat_unpackMantissa (u : UInt32) :
    (@unpackMantissa .binary32 u.toBitVec).toNat = u.toNat % signBit % 2 ^ 23 := by
  change (u.toNat >>> 0) % 2 ^ 23 = _
  rw [Nat.shiftRight_zero, signBit]
  omega

/-- The patterns above infinity, and only these, stand for what is not a number. -/
theorem isNaN_pattern_iff (u : UInt32) :
    @unpackExponent .binary32 u.toBitVec = -1#8 ∧
        @unpackMantissa .binary32 u.toBitVec ≠ 0#23 ↔
      Magnitude.infinity < u.toNat % signBit := by
  rw [← BitVec.toNat_inj, ne_eq, ← BitVec.toNat_inj, toNat_unpackExponent, toNat_unpackMantissa,
    Magnitude.infinity, show (-1#8).toNat = 255 from rfl, show (0#23).toNat = 0 from rfl]
  have hlt := Nat.mod_lt u.toNat (show 0 < signBit by decide)
  rw [show signBit = 2 ^ 31 from rfl] at hlt ⊢
  omega

theorem isNaN_unpack (b : BitVec Format.binary32.numBits) :
    (unpack .binary32 b).isNaN = true ↔ unpackExponent b = -1#8 ∧ unpackMantissa b ≠ 0#23 := by
  fun_cases unpack .binary32 b with
  | case1 _ _ _ _ _ hmantissa => exact iff_of_false nofun fun h => h.2 hmantissa
  | case2 _ _ hexponent hmantissa => exact iff_of_true rfl ⟨hexponent, hmantissa⟩
  | case3 _ _ _ _ _ _ hmantissa => exact iff_of_false nofun fun h => h.2 hmantissa
  | case4 _ _ _ _ _ hinfinity => exact iff_of_false nofun fun h => hinfinity h.1
  | case5 _ _ _ _ _ hinfinity => exact iff_of_false nofun fun h => hinfinity h.1

theorem isNaN_iff (x : Float32) :
    x.isNaN = true ↔ Magnitude.infinity < x.toBits.toNat % signBit :=
  (isNaN_unpack x.toBits.toBitVec).trans (isNaN_pattern_iff x.toBits)

/-- The pattern of a number or infinity is found again as it was. -/
theorem toBits_ofBits {u : UInt32} (h : u.toNat % signBit ≤ Magnitude.infinity) :
    (Float32.ofBits u).toBits = u := by
  have hvalid : Format.binary32.Valid u.toBitVec := ⟨fun hexponent hmantissa =>
    absurd ((isNaN_pattern_iff u).1 ⟨hexponent, hmantissa⟩) (Nat.not_lt.2 h)⟩
  exact congrArg UInt32.ofBitVec (pack_unpack hvalid)

/-- The pattern with the sign of a number and the given magnitude. -/
def withMagnitude (x : Float32) (r : Nat) : UInt32 :=
  UInt32.ofNat (x.toBits.toNat / signBit * signBit + r)

variable {x : Float32} {r : Nat} (d : DType)

theorem toNat_withMagnitude (x : Float32) (h : r ≤ Magnitude.infinity) :
    (withMagnitude x r).toNat = x.toBits.toNat / signBit * signBit + r := by
  have hlt := x.toBits.toNat_lt
  refine UInt32.toNat_ofNat_of_lt' ?_
  rw [Magnitude.infinity] at h
  rw [signBit, UInt32.size]
  omega

theorem mod_withMagnitude (x : Float32) (h : r ≤ Magnitude.infinity) :
    (withMagnitude x r).toNat % signBit = r := by
  rw [toNat_withMagnitude x h, Nat.mul_add_mod_self_right, Nat.mod_eq_of_lt]
  exact Nat.lt_of_le_of_lt h (by decide)

theorem div_withMagnitude (x : Float32) (h : r ≤ Magnitude.infinity) :
    (withMagnitude x r).toNat / signBit = x.toBits.toNat / signBit := by
  rw [toNat_withMagnitude x h, Nat.add_comm, Nat.add_mul_div_right _ _ (by decide),
    Nat.div_eq_of_lt (Nat.lt_of_le_of_lt h (by decide)), Nat.zero_add]

theorem withMagnitude_self (x : Float32) :
    withMagnitude x (x.toBits.toNat % signBit) = x.toBits := by
  rw [withMagnitude, Nat.mul_comm, Nat.div_add_mod, UInt32.ofNat_toNat]

theorem round_of_isNaN (h : x.isNaN = true) : round d x = x := by
  change Float32.ofBits (withMagnitude x (Magnitude.round d _)) = x
  rw [Magnitude.round_of_infinity_lt d ((isNaN_iff x).1 h), withMagnitude_self, ofBits_toBits]

/-- The magnitude of a number is rounded, and its sign kept. -/
theorem toBits_round (h : x.isNaN = false) :
    Magnitude.round d (x.toBits.toNat % signBit) ≤ Magnitude.infinity ∧
      (round d x).toBits = withMagnitude x (Magnitude.round d (x.toBits.toNat % signBit)) := by
  have hle : x.toBits.toNat % signBit ≤ Magnitude.infinity := by
    rw [← Nat.not_lt, ← isNaN_iff, h]
    exact Bool.false_ne_true
  have hround := Magnitude.round_le_infinity d hle
  refine ⟨hround, toBits_ofBits ?_⟩
  rwa [← withMagnitude, mod_withMagnitude x hround]

/-- Rounding makes no number into what is not one. -/
theorem isNaN_round (x : Float32) : (round d x).isNaN = x.isNaN := by
  cases hx : x.isNaN with
  | true => rw [round_of_isNaN d hx, hx]
  | false =>
    obtain ⟨hround, hbits⟩ := toBits_round d hx
    rw [← Bool.not_eq_true, isNaN_iff, hbits, mod_withMagnitude x hround]
    exact Nat.not_lt.2 hround

/-- What has been rounded is a value of the element type. -/
theorem round_round (x : Float32) : round d (round d x) = round d x := by
  cases hx : x.isNaN with
  | true => rw [round_of_isNaN d hx, round_of_isNaN d hx]
  | false =>
    obtain ⟨hround, hbits⟩ := toBits_round d hx
    rw [round, hbits, div_withMagnitude x hround, mod_withMagnitude x hround, Magnitude.round_round]
    rfl

@[simp] theorem round_f32 (x : Float32) : round .f32 x = x := by
  change Float32.ofBits (withMagnitude x _) = x
  rw [Magnitude.round, withMagnitude_self, ofBits_toBits]

theorem round_zero : round d 0.0 = 0.0 := by
  cases d <;> rfl

end Single

/-- To narrow a number is to round it, also to single precision. -/
theorem Scalar.narrow_eq_round (d : DType) (x : Float32) :
    Scalar.narrow d x = Single.round d x := by
  cases d with
  | f32 => exact (Single.round_f32 x).symm
  | f16 | bf16 | i32 => rfl

end TraceSubstitution
