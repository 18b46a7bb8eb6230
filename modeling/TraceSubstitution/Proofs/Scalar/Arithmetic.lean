import TraceSubstitution.Proofs.Scalar.Patterns

/-!
# Arithmetic with what is not a number

The result of an operation on single-precision numbers is computed from their unpacked forms
and packed again. Packing keeps the sign of a value and makes nothing into what is not a number
that was one before (`Single.HasSign.unpack_pack`), so it is enough to look at the operations on
unpacked forms: an operand that is not a number spoils the result, the sum of a finite number and
a number is one, and so on.

A finite number is a multiple of the smallest positive one (`Single.units`). Numbers are ordered as
these multiples are (`Single.lt_iff_units`), because their unpacked forms are canonical, and a
difference is above zero only if the first number is the larger one
(`Single.not_pos_sub`).
-/

namespace TraceSubstitution

namespace Single

open Float.Model Float.Model.UnpackedFloat

/-- The value is a number or infinite, and has the sign `s`. -/
inductive HasSign (s : Sign) : UnpackedFloat → Prop where
  | infinity : HasSign s (.infinity s)
  | zero : HasSign s (.zero s)
  | finite (m : Nat) (e : Int) (hm : 0 < m) : HasSign s (.finite s m e hm)

variable {s : Sign} {u : UnpackedFloat}

theorem HasSign.isNaN_eq_false (h : HasSign s u) : u.isNaN = false := by
  cases h <;> rfl

theorem exists_hasSign (h : u.isNaN = false) : ∃ s, HasSign s u := by
  cases u with
  | infinity s => exact ⟨s, .infinity⟩
  | notANumber => exact nomatch h
  | zero s => exact ⟨s, .zero⟩
  | finite s m e hm => exact ⟨s, .finite m e hm⟩

theorem ofBitVec_toBitVec (s : Sign) : Sign.ofBitVec s.toBitVec = s := by
  cases s <;> rfl

theorem unpackSign_packComponents (s : Sign) (e : BitVec 8) (m : BitVec 23) :
    unpackSign (packComponents .binary32 s e m) = s.toBitVec := by
  unfold unpackSign packComponents
  ext i hi
  grind

/-- What has no mantissa beside the largest exponent has the sign that it was packed with. -/
theorem hasSign_packComponents (s : Sign) {e : BitVec 8} {m : BitVec 23} (h : e ≠ -1#8 ∨ m = 0#23) :
    HasSign s (unpack .binary32 (packComponents .binary32 s e m)) := by
  unfold UnpackedFloat.unpack
  simp only [unpackSign_packComponents, ofBitVec_toBitVec, unpackExponent_packComponents,
    unpackMantissa_packComponents]
  split
  · next he =>
    rw [if_pos (h.resolve_left (not_not_intro he))]
    exact .infinity
  · split
    · split
      · exact .zero
      · exact .finite ..
    · exact .finite ..

/-- Packing keeps signs. -/
theorem HasSign.unpack_pack (h : HasSign s u) :
    HasSign s (unpack .binary32 (pack .binary32 u)) := by
  cases h with
  | infinity => exact hasSign_packComponents s (.inr rfl)
  | zero => exact hasSign_packComponents s (.inr rfl)
  | finite m e hm =>
    rw [pack_finite]
    split
    · exact hasSign_packComponents s (.inr rfl)
    · next hbound =>
      split
      · refine hasSign_packComponents s (.inl fun he => ?_)
        have hnat := congrArg BitVec.toNat he
        rw [BitVec.toNat_ofNat, Nat.mod_eq_of_lt (by omega)] at hnat
        change _ = 255 at hnat
        omega
      · exact hasSign_packComponents s (.inl (by decide))

theorem isNaN_unpack_pack (u : UnpackedFloat) :
    (unpack .binary32 (pack .binary32 u)).isNaN = u.isNaN := by
  cases hu : u.isNaN with
  | true =>
    cases u with
    | notANumber => rfl
    | infinity | zero | finite => exact nomatch hu
  | false =>
    obtain ⟨s, hs⟩ := exists_hasSign hu
    exact hs.unpack_pack.isNaN_eq_false

section

variable {x y : Float32}

/-- The unpacked form of a number. -/
abbrev unpacked (x : Float32) : UnpackedFloat := x.toModel.unpack

theorem isNaN_add (x y : Float32) :
    (x + y).isNaN = (UnpackedFloat.add .binary32 (unpacked x) (unpacked y)).isNaN :=
  isNaN_unpack_pack _

theorem isNaN_sub (x y : Float32) :
    (x - y).isNaN = (UnpackedFloat.sub .binary32 (unpacked x) (unpacked y)).isNaN :=
  isNaN_unpack_pack _

theorem isNaN_mul (x y : Float32) :
    (x * y).isNaN = (UnpackedFloat.mul .binary32 (unpacked x) (unpacked y)).isNaN :=
  isNaN_unpack_pack _

theorem isNaN_div (x y : Float32) :
    (x / y).isNaN = (UnpackedFloat.div .binary32 (unpacked x) (unpacked y)).isNaN :=
  isNaN_unpack_pack _

theorem unpacked_of_isNaN (h : x.isNaN = true) : unpacked x = .notANumber := by
  change (unpacked x).isNaN = true at h
  cases hx : unpacked x <;> rw [hx] at h <;> trivial

/-! ### What is not a number spoils the result -/

theorem isNaN_add_of_left (h : x.isNaN = true) (y : Float32) : (x + y).isNaN = true := by
  rw [isNaN_add, unpacked_of_isNaN h]
  rfl

theorem isNaN_mul_of_left (h : x.isNaN = true) (y : Float32) : (x * y).isNaN = true := by
  rw [isNaN_mul, unpacked_of_isNaN h]
  rfl

theorem isNaN_mul_of_right (x : Float32) (h : y.isNaN = true) : (x * y).isNaN = true := by
  rw [isNaN_mul, unpacked_of_isNaN h]
  cases unpacked x <;> rfl

/-- Numbers are ordered as their unpacked forms are. -/
theorem lt_iff_unpacked (x y : Float32) : x < y ↔ (unpacked x).lt (unpacked y) = true :=
  decide_eq_true_iff

/-- Nothing is below what is not a number. -/
theorem not_lt_of_isNaN (x : Float32) (h : y.isNaN = true) : ¬x < y := by
  rw [lt_iff_unpacked, unpacked_of_isNaN h]
  cases unpacked x <;> exact Bool.false_ne_true

/-- The larger of two numbers. -/
theorem max_of_isNaN_eq_false (hx : x.isNaN = false) (hy : y.isNaN = false) :
    max x y = if x < y then y else x := by
  unfold max
  rw [hx, hy]
  rfl

/-! ### Finite operands -/

theorem isFinite_zero : (0.0 : Float32).isFinite = true := rfl

/-- A finite number is zero or has a mantissa. -/
theorem finite_cases (h : u.isFinite = true) :
    (∃ s, u = .zero s) ∨ ∃ s m e hm, u = .finite s m e hm := by
  cases u with
  | infinity | notANumber => exact nomatch h
  | zero s => exact .inl ⟨s, rfl⟩
  | finite s m e hm => exact .inr ⟨s, m, e, hm, rfl⟩

theorem hasSign_roundWithAccuracy (s : Sign) (m : Nat) (e : Int) (accuracy : Accuracy) :
    HasSign s (roundWithAccuracy .binary32 s m e accuracy) := by
  unfold roundWithAccuracy
  dsimp only
  split
  · exact .zero
  · exact .finite ..

theorem isNaN_normalize (m e : Int) (s : Sign) :
    (UnpackedFloat.normalize .binary32 m e s).isNaN = false := by
  unfold UnpackedFloat.normalize
  split
  · exact (hasSign_roundWithAccuracy ..).isNaN_eq_false
  · rfl
  · exact (hasSign_roundWithAccuracy ..).isNaN_eq_false

/-- A finite number can be added to whatever is a number or infinite. -/
theorem isNaN_add_finite (hx : x.isFinite = true) (hy : y.isNaN = false) :
    (x + y).isNaN = false := by
  rw [isNaN_add]
  change (unpacked y).isNaN = false at hy
  obtain ⟨r, hr⟩ | ⟨r, m, e, hm, hr⟩ := finite_cases (u := unpacked x) hx <;> rw [hr]
  · cases hv : unpacked y with
    | notANumber => exact nomatch hv ▸ hy
    | infinity s | finite => rfl
    | zero s => cases r <;> cases s <;> rfl
  · cases hv : unpacked y with
    | notANumber => exact nomatch hv ▸ hy
    | infinity s | zero s => rfl
    | finite => exact isNaN_normalize ..

theorem isNaN_mul_finite (hx : x.isFinite = true) (hy : y.isFinite = true) :
    (x * y).isNaN = false := by
  rw [isNaN_mul]
  obtain ⟨r, hr⟩ | ⟨r, m, e, hm, hr⟩ := finite_cases (u := unpacked x) hx <;>
    obtain ⟨s, hs⟩ | ⟨s, n, d, hn, hs⟩ := finite_cases (u := unpacked y) hy <;> rw [hr, hs]
  · rfl
  · rfl
  · rfl
  · exact (hasSign_roundWithAccuracy ..).isNaN_eq_false

/-! ### Multiples of the smallest positive number -/

/-- The magnitude of a finite number, as a multiple of the smallest positive one. -/
def magnitude (m : Nat) (e : Int) : Nat := m * 2 ^ (e + 149).toNat

/-- A finite number as a multiple of the smallest positive one. -/
def unitsOf : UnpackedFloat → Int
  | .finite s m e _ => s.apply (magnitude m e)
  | _ => 0

/-- The mantissa has its leading bit unless the exponent is the smallest one. -/
structure Canonical (m : Nat) (e : Int) : Prop where
  exponent : -149 ≤ e
  mantissa : m < 2 ^ 24
  leading : e = -149 ∨ 2 ^ 23 ≤ m

theorem canonical_of_unpack {b : BitVec Format.binary32.numBits} {m : Nat} {e : Int} {hm : 0 < m}
    (h : unpack .binary32 b = .finite s m e hm) : Canonical m e := by
  revert h
  fun_cases UnpackedFloat.unpack .binary32 b with
  | case1 | case2 | case3 => exact nofun
  | case4 mantissa exponent value _ sign _ hexponent hmantissa =>
    intro h
    obtain ⟨-, rfl, rfl⟩ := UnpackedFloat.finite.inj h
    have hvalue : value + 1 = -149 := by
      simp only [value, hexponent]
      rfl
    have hlt : mantissa.toNat < 2 ^ 23 := mantissa.isLt
    exact ⟨by omega, by omega, .inl hvalue⟩
  | case5 mantissa exponent value _ sign hinfinity hzero =>
    intro h
    obtain ⟨-, rfl, rfl⟩ := UnpackedFloat.finite.inj h
    have hexponent : exponent.toNat ≠ 0 := fun heq => hzero (BitVec.eq_of_toNat_eq heq)
    have hvalue : value = (exponent.toNat : Int) - (127 + 23) := rfl
    have hlt : mantissa.toNat < 2 ^ 23 := mantissa.isLt
    have himplicit := toNat_implicit mantissa
    exact ⟨by omega, by omega, .inr (by omega)⟩

theorem Canonical.magnitude_lt {m n : Nat} {e d : Int} (h : Canonical m e) (hn : Canonical n d)
    (hlt : e < d) : magnitude m e < magnitude n d := by
  have hexponent := h.exponent
  have hleading : 2 ^ 23 ≤ n := hn.leading.resolve_left (by omega)
  have hsteps : (e + 149).toNat + 1 ≤ (d + 149).toNat := by omega
  unfold magnitude
  calc m * 2 ^ (e + 149).toNat < 2 ^ 24 * 2 ^ (e + 149).toNat :=
        Nat.mul_lt_mul_of_pos_right h.mantissa (Nat.two_pow_pos _)
    _ = 2 ^ 23 * 2 ^ ((e + 149).toNat + 1) := by ring
    _ ≤ n * 2 ^ (d + 149).toNat :=
        Nat.mul_le_mul hleading (Nat.pow_le_pow_right (by decide) hsteps)

/-- Canonical forms are ordered by exponent, then by mantissa. -/
theorem Canonical.magnitude_lt_iff {m n : Nat} {e d : Int} (h : Canonical m e)
    (hn : Canonical n d) :
    magnitude m e < magnitude n d ↔ e < d ∨ e = d ∧ m < n := by
  rcases Int.lt_trichotomy e d with hlt | rfl | hlt
  · exact iff_of_true (h.magnitude_lt hn hlt) (.inl hlt)
  · unfold magnitude
    rw [Nat.mul_lt_mul_right (Nat.two_pow_pos _)]
    omega
  · have := hn.magnitude_lt h hlt
    exact iff_of_false (by omega) (by omega)

theorem magnitude_pos {m : Nat} (hm : 0 < m) (e : Int) : 0 < magnitude m e :=
  Nat.mul_pos hm (Nat.two_pow_pos _)

theorem unitsOf_positive {m : Nat} (hm : 0 < m) (e : Int) :
    0 < unitsOf (.finite .positive m e hm) :=
  Int.natCast_pos.2 (magnitude_pos hm e)

theorem unitsOf_negative {m : Nat} (hm : 0 < m) (e : Int) :
    unitsOf (.finite .negative m e hm) < 0 :=
  Int.neg_neg_of_pos (unitsOf_positive hm e)

theorem compare_then_eq_lt {m n : Nat} {e d : Int} :
    (compare e d).then (compare m n) = .lt ↔ e < d ∨ e = d ∧ m < n := by
  rw [Ordering.then_eq_lt, compare_lt_iff_lt, compare_eq_iff_eq, compare_lt_iff_lt]

theorem compare_then_eq_gt {m n : Nat} {e d : Int} :
    (compare e d).then (compare m n) = .gt ↔ d < e ∨ e = d ∧ n < m := by
  rw [Ordering.then_eq_gt, compare_gt_iff_gt, compare_eq_iff_eq, compare_gt_iff_gt]

/-- Two mantissas with signs are ordered as the multiples that they stand for. -/
theorem lt_finite_iff {s r : Sign} {m n : Nat} {e d : Int} {hm : 0 < m} {hn : 0 < n}
    (h : Canonical m e) (h' : Canonical n d) :
    (UnpackedFloat.finite s m e hm).lt (.finite r n d hn) = true ↔
      unitsOf (.finite s m e hm) < unitsOf (.finite r n d hn) := by
  cases s <;> cases r
  · unfold UnpackedFloat.lt unitsOf
    simp only [UnpackedFloat.compare, Sign.apply, beq_iff_eq, Option.some.injEq]
    rw [Ordering.swap_eq_lt, compare_then_eq_gt, Int.neg_lt_neg_iff, Int.ofNat_lt,
      h'.magnitude_lt_iff h]
    omega
  · exact iff_of_true rfl ((unitsOf_negative hm e).trans (unitsOf_positive hn d))
  · exact iff_of_false nofun ((unitsOf_negative hn d).trans (unitsOf_positive hm e)).asymm
  · unfold UnpackedFloat.lt unitsOf
    simp only [UnpackedFloat.compare, Sign.apply, beq_iff_eq, Option.some.injEq]
    rw [compare_then_eq_lt, Int.ofNat_lt, h.magnitude_lt_iff h']

/-- A finite number as a multiple of the smallest positive one. -/
def units (x : Float32) : Int := unitsOf (unpacked x)

theorem lt_iff_units (hx : x.isFinite = true) (hy : y.isFinite = true) :
    x < y ↔ units x < units y := by
  rw [lt_iff_unpacked]
  unfold units
  obtain ⟨s, hs⟩ | ⟨s, m, e, hm, hs⟩ := finite_cases (u := unpacked x) hx <;>
    obtain ⟨r, hr⟩ | ⟨r, n, d, hn, hr⟩ := finite_cases (u := unpacked y) hy <;> rw [hs, hr]
  · exact iff_of_false nofun nofun
  · cases r
    · exact iff_of_false nofun (unitsOf_negative hn d).asymm
    · exact iff_of_true rfl (unitsOf_positive hn d)
  · cases s
    · exact iff_of_true rfl (unitsOf_negative hm e)
    · exact iff_of_false nofun (unitsOf_positive hm e).asymm
  · exact lt_finite_iff (canonical_of_unpack hs) (canonical_of_unpack hr)

/-! ### Negative infinity -/

/-- Negative infinity. -/
abbrev negInfinity : Float32 := Float32.ofBits 0xff800000

/-- Negative infinity is below all finite numbers. -/
theorem negInfinity_lt (hy : y.isFinite = true) : negInfinity < y := by
  rw [lt_iff_unpacked]
  obtain ⟨r, hr⟩ | ⟨r, n, d, hn, hr⟩ := finite_cases (u := unpacked y) hy <;> rw [hr] <;> rfl

theorem not_lt_negInfinity (x : Float32) : ¬x < negInfinity := by
  rw [lt_iff_unpacked, show unpacked negInfinity = .infinity .negative from rfl]
  rcases unpacked x with ⟨_ | _⟩ | _ | ⟨_ | _⟩ | ⟨_ | _⟩ <;> exact Bool.false_ne_true

theorem isNaN_negInfinity : negInfinity.isNaN = false := rfl

/-- A finite number can be taken from negative infinity without changing it. -/
theorem negInfinity_sub (hy : y.isFinite = true) :
    negInfinity - y = negInfinity := by
  have hsub : UnpackedFloat.sub .binary32 (.infinity .negative) (unpacked y) =
      .infinity .negative := by
    obtain ⟨r, hr⟩ | ⟨r, n, d, hn, hr⟩ := finite_cases (u := unpacked y) hy <;> rw [hr] <;> rfl
  change Float32.ofModel (Float32.Model.pack (UnpackedFloat.sub .binary32 (.infinity .negative)
    (unpacked y))) = _
  rw [hsub]
  rfl

theorem isNaN_negInfinity_sub_self : (negInfinity - negInfinity).isNaN = true := rfl

/-! ### Differences -/

/-- The value is negative or zero. -/
def AtMostZero (u : UnpackedFloat) : Prop := HasSign .negative u ∨ ∃ s, u = .zero s

theorem AtMostZero.unpack_pack (h : AtMostZero u) :
    AtMostZero (unpack .binary32 (pack .binary32 u)) := by
  obtain h | ⟨s, rfl⟩ := h
  · exact .inl h.unpack_pack
  · exact .inr ⟨s, by cases s <;> rfl⟩

theorem AtMostZero.lt_eq_false (h : AtMostZero u) (s : Sign) :
    (UnpackedFloat.zero s).lt u = false := by
  obtain h | ⟨r, rfl⟩ := h
  · cases h <;> rfl
  · rfl

theorem atMostZero_normalize {m : Int} (hm : m ≤ 0) (e : Int) (s : Sign) :
    AtMostZero (UnpackedFloat.normalize .binary32 m e s) := by
  unfold UnpackedFloat.normalize
  split
  · exact .inl (hasSign_roundWithAccuracy ..)
  · exact .inr ⟨s, rfl⟩
  · next h => exact absurd (compare_gt_iff_gt.1 h) (by omega)

/-- A mantissa for a smaller exponent stands for the same multiple. -/
theorem magnitude_decreaseExponent (m : Nat) {e t : Int} (ht : -149 ≤ t) (h : t ≤ e) :
    (decreaseExponent m e t).1 * 2 ^ (t + 149).toNat = magnitude m e := by
  change (m <<< (e - t).toNat) * 2 ^ (t + 149).toNat = m * 2 ^ (e + 149).toNat
  rw [Nat.shiftLeft_eq, Nat.mul_assoc, ← Nat.pow_add]
  congr 2
  omega

theorem apply_mul (s : Sign) (m k : Nat) : s.apply m * (k : Int) = s.apply (m * k : Nat) := by
  cases s <;> simp [Sign.apply]

/-- The difference of two mantissas has the sign of the difference of the multiples. -/
theorem atMostZero_sub_finite {s r : Sign} {m n : Nat} {e d : Int} {hm : 0 < m} {hn : 0 < n}
    (h : Canonical m e) (h' : Canonical n d)
    (hle : unitsOf (.finite s m e hm) ≤ unitsOf (.finite r n d hn)) :
    AtMostZero (UnpackedFloat.sub .binary32 (.finite s m e hm) (.finite r n d hn)) := by
  refine atMostZero_normalize ?_ _ _
  have ht : -149 ≤ min e d := le_min h.exponent h'.exponent
  have hscaled : (s.apply (decreaseExponent m e (min e d)).1 -
      r.apply (decreaseExponent n d (min e d)).1) * ((2 ^ (min e d + 149).toNat : Nat) : Int) =
        unitsOf (.finite s m e hm) - unitsOf (.finite r n d hn) := by
    rw [Int.sub_mul, apply_mul, apply_mul, magnitude_decreaseExponent m ht (min_le_left e d),
      magnitude_decreaseExponent n ht (min_le_right e d)]
    rfl
  refine nonpos_of_mul_nonpos_left (hscaled.le.trans (Int.sub_nonpos_of_le hle)) ?_
  exact Int.natCast_pos.2 (Nat.two_pow_pos _)

/-- The difference of finite numbers is above zero only if the first one is larger. -/
theorem atMostZero_sub (hx : x.isFinite = true) (hy : y.isFinite = true)
    (hle : units x ≤ units y) :
    AtMostZero (UnpackedFloat.sub .binary32 (unpacked x) (unpacked y)) := by
  unfold units at hle
  obtain ⟨s, hs⟩ | ⟨s, m, e, hm, hs⟩ := finite_cases (u := unpacked x) hx <;>
    obtain ⟨r, hr⟩ | ⟨r, n, d, hn, hr⟩ := finite_cases (u := unpacked y) hy <;>
    rw [hs, hr] at hle ⊢
  · cases s <;> cases r <;> exact .inr ⟨_, rfl⟩
  · cases r
    · exact absurd (unitsOf_negative hn d) (not_lt.2 hle)
    · exact .inl (.finite ..)
  · cases s
    · exact .inl (.finite ..)
    · exact absurd (unitsOf_positive hm e) (not_lt.2 hle)
  · exact atMostZero_sub_finite (canonical_of_unpack hs) (canonical_of_unpack hr) hle

theorem not_pos_sub (hx : x.isFinite = true) (hy : y.isFinite = true) (hle : units x ≤ units y) :
    ¬(0.0 : Float32) < x - y := by
  rw [lt_iff_unpacked, Bool.not_eq_true]
  exact (atMostZero_sub hx hy hle).unpack_pack.lt_eq_false .positive

theorem isNaN_sub_finite (hx : x.isFinite = true) (hy : y.isFinite = true) :
    (x - y).isNaN = false := by
  rw [isNaN_sub]
  obtain ⟨s, hs⟩ | ⟨s, m, e, hm, hs⟩ := finite_cases (u := unpacked x) hx <;>
    obtain ⟨r, hr⟩ | ⟨r, n, d, hn, hr⟩ := finite_cases (u := unpacked y) hy <;>
    rw [hs, hr]
  · cases s <;> cases r <;> rfl
  · rfl
  · rfl
  · exact isNaN_normalize ..

/-- A finite number can be divided by a positive one. -/
theorem isNaN_div_finite (hx : x.isFinite = true) (hy : y.isFinite = true)
    (hpos : (0.0 : Float32) < y) : (x / y).isNaN = false := by
  rw [isNaN_div]
  rw [lt_iff_unpacked] at hpos
  obtain ⟨r, hr⟩ | ⟨r, n, d, hn, hr⟩ := finite_cases (u := unpacked y) hy <;> rw [hr] at hpos ⊢
  · exact nomatch hpos
  · obtain ⟨s, hs⟩ | ⟨s, m, e, hm, hs⟩ := finite_cases (u := unpacked x) hx <;> rw [hs]
    · rfl
    · exact (hasSign_roundWithAccuracy ..).isNaN_eq_false

end

end Single

end TraceSubstitution
