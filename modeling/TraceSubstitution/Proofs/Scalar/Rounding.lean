import Mathlib.Order.Nat
import TraceSubstitution.Scalar.Rounding

/-!
# Rounding once is enough

Both ways to round to multiples of a spacing go to one of the two multiples around a
pattern, and leave a multiple as it is (`Magnitude.IsNearest`). So a pattern stays
between the multiples around it, in particular within its exponent up to a carry, and
what has been rounded to an element type is rounded already: `Magnitude.round_round`.

A pattern that is a number or infinity stays one (`Magnitude.round_le_infinity`), and
what is not a number stays as it is.
-/

namespace TraceSubstitution

namespace Magnitude

theorem spacing_pos (s : Nat) : 0 < spacing s := Nat.two_pow_pos s

theorem spacing_dvd_spacing {s t : Nat} (h : s ≤ t) : spacing s ∣ spacing t := Nat.pow_dvd_pow 2 h

theorem spacing_succ (s : Nat) : spacing (s + 1) = spacing s * 2 := Nat.pow_succ ..

/-- Goes to one of the two multiples of a spacing around a pattern, and nowhere from a multiple. -/
structure IsNearest (s : Nat) (f : Nat → Nat) : Prop where
  dvd : ∀ n, spacing s ∣ f n
  lower : ∀ n, n / spacing s * spacing s ≤ f n
  upper : ∀ n, f n ≤ (n / spacing s + 1) * spacing s
  fixed : ∀ n, spacing s ∣ n → f n = n

/-- What is added before bits are dropped is less than the spacing. -/
theorem isNearest_of_bias {s : Nat} {f bias : Nat → Nat}
    (hf : ∀ n, f n = (n + bias n) / spacing s * spacing s) (hbias : ∀ n, bias n < spacing s) :
    IsNearest s f where
  dvd n := hf n ▸ Nat.dvd_mul_left _ _
  lower n := by
    rw [hf]
    exact Nat.mul_le_mul_right _ (Nat.div_le_div_right (Nat.le_add_right n _))
  upper n := by
    rw [hf, ← Nat.add_div_right n (spacing_pos s)]
    exact Nat.mul_le_mul_right _ (Nat.div_le_div_right (Nat.add_le_add_left (hbias n).le n))
  fixed n hn := by
    obtain ⟨k, rfl⟩ := hn
    rw [hf, Nat.mul_add_div (spacing_pos s), Nat.div_eq_of_lt (hbias _), Nat.add_zero, Nat.mul_comm]

theorem isNearest_nearestEven {s : Nat} (hs : 0 < s) : IsNearest s (nearestEven s) := by
  refine isNearest_of_bias (fun n => congrArg (· / _ * _) (Nat.add_assoc n _ _)) fun n => ?_
  have hparity := Nat.mod_lt (n / spacing s) Nat.two_pos
  obtain ⟨t, rfl⟩ := Nat.exists_eq_add_one.2 hs
  have hpos := spacing_pos t
  rw [spacing_succ] at hparity ⊢
  omega

theorem isNearest_nearestAway (s : Nat) : IsNearest s (nearestAway s) :=
  isNearest_of_bias (fun _ => rfl) fun _ => Nat.div_lt_self (spacing_pos s) Nat.one_lt_two

/-- The smallest pattern of an exponent is a multiple of every spacing that occurs. -/
theorem spacing_dvd_mul {s : Nat} (hs : s ≤ 23) (e : Nat) : spacing s ∣ e * spacing 23 :=
  Nat.dvd_trans (spacing_dvd_spacing hs) (Nat.dvd_mul_left _ _)

namespace IsNearest

variable {s m n : Nat} {f : Nat → Nat} (h : IsNearest s f)
include h

/-- A multiple below a pattern stays below it. -/
theorem le_of_dvd (hm : spacing s ∣ m) (hle : m ≤ n) : m ≤ f n := by
  obtain ⟨k, rfl⟩ := hm
  refine le_trans ?_ (h.lower n)
  rw [Nat.mul_comm] at hle ⊢
  exact Nat.mul_le_mul_right _ ((Nat.le_div_iff_mul_le (spacing_pos s)).2 hle)

/-- A multiple above a pattern stays above it. -/
theorem ge_of_dvd (hm : spacing s ∣ m) (hle : n ≤ m) : f n ≤ m := by
  obtain ⟨k, rfl⟩ := hm
  rcases Nat.eq_or_lt_of_le hle with rfl | hlt
  · exact (h.fixed _ (Nat.dvd_mul_right _ _)).le
  · refine le_trans (h.upper n) ?_
    rw [Nat.mul_comm (spacing s)]
    exact Nat.mul_le_mul_right _ (Nat.div_lt_of_lt_mul hlt)

theorem idempotent (n : Nat) : f (f n) = f n := h.fixed _ (h.dvd n)

/-- Rounding goes no further than to the next exponent. -/
theorem exponent_eq_or (hs : s ≤ 23) (n : Nat) :
    exponent (f n) = exponent n ∨ f n = (exponent n + 1) * spacing 23 := by
  have hlower : exponent n * spacing 23 ≤ f n :=
    h.le_of_dvd (spacing_dvd_mul hs _) (Nat.div_mul_le_self n _)
  have hupper : f n ≤ (exponent n + 1) * spacing 23 :=
    h.ge_of_dvd (spacing_dvd_mul hs _)
      (Nat.lt_mul_of_div_lt (Nat.lt_succ_self _) (spacing_pos 23)).le
  rcases Nat.eq_or_lt_of_le hupper with heq | hlt
  · exact .inr heq
  · exact .inl (Nat.div_eq_of_lt_le hlower hlt)

end IsNearest

theorem exponent_mul (e : Nat) : exponent (e * spacing 23) = e :=
  Nat.mul_div_cancel e (spacing_pos 23)

/-- Infinity is the smallest pattern of the last exponent. -/
theorem spacing_dvd_infinity {s : Nat} (h : s ≤ 23) : spacing s ∣ infinity :=
  spacing_dvd_mul h 255

theorem le_infinity_of_exponent {n : Nat} (h : exponent n < 255) : n ≤ infinity :=
  (Nat.lt_mul_of_div_lt h (spacing_pos 23)).le

section

variable {n : Nat}

theorem toHalf_of_infinity_lt (h : infinity < n) : toHalf n = n := if_pos h

theorem toHalf_tiny (h : exponent n < 102) : toHalf n = 0 := by
  have hle := le_infinity_of_exponent (n := n) (by omega)
  rw [toHalf, if_neg (by omega), if_pos h]

theorem toHalf_half (h : exponent n = 102) :
    toHalf n = if n % spacing 23 = 0 then 0 else 103 * spacing 23 := by
  have hle := le_infinity_of_exponent (n := n) (by omega)
  rw [toHalf, if_neg (by omega), if_neg (by omega), if_pos h]

theorem toHalf_subnormal (h : 102 < exponent n) (h' : exponent n < 113) :
    toHalf n = nearestEven (126 - exponent n) n := by
  have hle := le_infinity_of_exponent (n := n) (by omega)
  rw [toHalf, if_neg (by omega), if_neg (by omega), if_neg (by omega), if_pos h']

theorem toHalf_normal (h : 113 ≤ exponent n) (hle : n ≤ infinity) :
    toHalf n = if 0x47800000 ≤ nearestEven 13 n then infinity else nearestEven 13 n := by
  rw [toHalf, if_neg (by omega), if_neg (by omega), if_neg (by omega), if_neg (by omega)]

/-- Multiples of the spacing at their exponent are values of half precision. -/
theorem toHalf_of_dvd (h : 102 < exponent n) (h' : exponent n < 113)
    (hdvd : spacing (126 - exponent n) ∣ n) : toHalf n = n := by
  rw [toHalf_subnormal h h']
  exact (isNearest_nearestEven (by omega)).fixed n hdvd

theorem toInteger_fraction (h : exponent n < 126) : toInteger n = 0 := by
  rw [toInteger, if_neg (by omega), if_pos h]

theorem toInteger_half (h : exponent n = 126) : toInteger n = 127 * spacing 23 := by
  rw [toInteger, if_neg (by omega), if_neg (by omega), if_pos h]

theorem toInteger_mixed (h : 126 < exponent n) (h' : exponent n < 150) :
    toInteger n = nearestAway (150 - exponent n) n := by
  rw [toInteger, if_neg (by omega), if_neg (by omega), if_neg (by omega)]

theorem toInteger_whole (h : 150 ≤ exponent n) : toInteger n = n := if_pos h

/-- Multiples of the spacing at their exponent are integers. -/
theorem toInteger_of_dvd (h : 126 < exponent n) (h' : exponent n < 150)
    (hdvd : spacing (150 - exponent n) ∣ n) : toInteger n = n := by
  rw [toInteger_mixed h h']
  exact (isNearest_nearestAway _).fixed n hdvd

end

theorem toHalf_toHalf (n : Nat) : toHalf (toHalf n) = toHalf n := by
  rcases Nat.lt_or_ge infinity n with hnan | hle
  · rw [toHalf_of_infinity_lt hnan, toHalf_of_infinity_lt hnan]
  rcases Nat.lt_or_ge (exponent n) 113 with hsmall | hnormal
  · rcases Nat.lt_trichotomy (exponent n) 102 with htiny | hhalf | hsubnormal
    · rw [toHalf_tiny htiny]
      rfl
    · rw [toHalf_half hhalf]
      split <;> rfl
    · have hnearest := isNearest_nearestEven (s := 126 - exponent n) (by omega)
      rw [toHalf_subnormal hsubnormal hsmall]
      rcases hnearest.exponent_eq_or (by omega) n with hexponent | hcarry
      · refine toHalf_of_dvd (by omega) (by omega) ?_
        rw [hexponent]
        exact hnearest.dvd n
      · rw [hcarry]
        rcases Nat.lt_or_ge (exponent n + 1) 113 with hlt | hge
        · refine toHalf_of_dvd ?_ ?_ ?_ <;> rw [exponent_mul]
          · omega
          · exact hlt
          · exact spacing_dvd_mul (by omega) _
        · rw [show exponent n + 1 = 113 by omega]
          rfl
  · have hnearest := isNearest_nearestEven (s := 13) (by omega)
    rw [toHalf_normal hnormal hle]
    split
    · rfl
    · next hbound =>
      have hlower : 113 ≤ exponent (nearestEven 13 n) := by
        refine (Nat.le_div_iff_mul_le (spacing_pos 23)).2 ?_
        refine hnearest.le_of_dvd (spacing_dvd_mul (by omega) 113) ?_
        exact (Nat.le_div_iff_mul_le (spacing_pos 23)).1 hnormal
      have hupper := hnearest.ge_of_dvd (spacing_dvd_infinity (by omega)) hle
      rw [toHalf_normal hlower hupper, hnearest.idempotent, if_neg hbound]

theorem toUpperHalf_toUpperHalf (n : Nat) : toUpperHalf (toUpperHalf n) = toUpperHalf n := by
  have hnearest := isNearest_nearestEven (s := 16) (by omega)
  unfold toUpperHalf
  rcases Nat.lt_or_ge infinity n with hnan | hle
  · rw [if_pos hnan, if_pos hnan]
  · have hupper := hnearest.ge_of_dvd (spacing_dvd_infinity (by omega)) hle
    rw [if_neg (Nat.not_lt.2 hle), if_neg (Nat.not_lt.2 hupper), hnearest.idempotent]

theorem toInteger_toInteger (n : Nat) : toInteger (toInteger n) = toInteger n := by
  rcases Nat.lt_or_ge (exponent n) 150 with hmixed | hwhole
  · rcases Nat.lt_trichotomy (exponent n) 126 with hfraction | hhalf | hone
    · rw [toInteger_fraction hfraction]
      rfl
    · rw [toInteger_half hhalf]
      rfl
    · have hnearest := isNearest_nearestAway (150 - exponent n)
      rw [toInteger_mixed hone hmixed]
      rcases hnearest.exponent_eq_or (by omega) n with hexponent | hcarry
      · refine toInteger_of_dvd (by omega) (by omega) ?_
        rw [hexponent]
        exact hnearest.dvd n
      · rw [hcarry]
        rcases Nat.lt_or_ge (exponent n + 1) 150 with hlt | hge
        · refine toInteger_of_dvd ?_ ?_ ?_ <;> rw [exponent_mul]
          · omega
          · exact hlt
          · exact spacing_dvd_mul (by omega) _
        · refine toInteger_whole ?_
          rw [exponent_mul]
          exact hge
  · rw [toInteger_whole hwhole, toInteger_whole hwhole]

/-- What has been rounded to an element type is not changed by rounding it again. -/
theorem round_round (d : DType) (n : Nat) : round d (round d n) = round d n := by
  cases d with
  | f32 => rfl
  | f16 => exact toHalf_toHalf n
  | bf16 => exact toUpperHalf_toUpperHalf n
  | i32 => exact toInteger_toInteger n

/-- What is not a number stays as it is. -/
theorem round_of_infinity_lt (d : DType) {n : Nat} (h : infinity < n) : round d n = n := by
  cases d with
  | f32 => rfl
  | f16 => exact if_pos h
  | bf16 => exact if_pos h
  | i32 =>
    refine toInteger_whole ((Nat.le_div_iff_mul_le (spacing_pos 23)).2 (le_trans ?_ h.le))
    decide

/-- Numbers and infinity are rounded to numbers and infinity. -/
theorem round_le_infinity (d : DType) {n : Nat} (h : n ≤ infinity) : round d n ≤ infinity := by
  have hnearest : ∀ {s : Nat} {f : Nat → Nat}, IsNearest s f → s ≤ 23 → f n ≤ infinity :=
    fun hf hs => hf.ge_of_dvd (spacing_dvd_infinity hs) h
  cases d with
  | f32 => exact h
  | f16 =>
    change toHalf n ≤ infinity
    rcases Nat.lt_or_ge (exponent n) 113 with hsmall | hnormal
    · rcases Nat.lt_trichotomy (exponent n) 102 with htiny | hhalf | hsubnormal
      · rw [toHalf_tiny htiny]
        exact Nat.zero_le _
      · rw [toHalf_half hhalf]
        split <;> decide
      · rw [toHalf_subnormal hsubnormal hsmall]
        exact hnearest (isNearest_nearestEven (by omega)) (by omega)
    · rw [toHalf_normal hnormal h]
      split
      · exact le_rfl
      · exact hnearest (isNearest_nearestEven (by omega)) (by omega)
  | bf16 =>
    change toUpperHalf n ≤ infinity
    rw [toUpperHalf, if_neg (Nat.not_lt.2 h)]
    exact hnearest (isNearest_nearestEven (by omega)) (by omega)
  | i32 =>
    change toInteger n ≤ infinity
    rcases Nat.lt_or_ge (exponent n) 150 with hmixed | hwhole
    · rcases Nat.lt_trichotomy (exponent n) 126 with hfraction | hhalf | hone
      · rw [toInteger_fraction hfraction]
        exact Nat.zero_le _
      · rw [toInteger_half hhalf]
        decide
      · rw [toInteger_mixed hone hmixed]
        exact hnearest (isNearest_nearestAway _) (by omega)
    · rwa [toInteger_whole hwhole]

end Magnitude

end TraceSubstitution
