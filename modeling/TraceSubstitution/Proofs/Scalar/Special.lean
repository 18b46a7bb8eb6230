import TraceSubstitution.Proofs.Scalar.Arithmetic

/-!
# Scalars with special values

Some scalars are not numbers, and some are infinite (`SpecialValues`). The laws are those of
single precision (`LawfulSpecialValues`): what is not a number spoils the result, finite scalars
have sums, products and quotients, though these may be infinite, and the lowest scalar is below
the finite ones and vanishes under the exponential. Finite scalars and the lowest one are the
scores of keys, and the largest of them is a score that no other exceeds
(`isScore_maximum`).

Single-precision numbers obey these laws with any exponential and logarithm that treat special
values as they should (`Single.lawful_scalarWith`).
-/

namespace TraceSubstitution

/-- Scalars of which some are not numbers and some are infinite. -/
class SpecialValues (α : Type) where
  /-- The scalar is not a number. -/
  IsNaN : α → Prop
  /-- The scalar is infinite. -/
  IsInfinite : α → Prop

export SpecialValues (IsNaN IsInfinite)

/-- The scalar is a number and not infinite. -/
def IsFinite {α : Type} [SpecialValues α] (x : α) : Prop := ¬IsNaN x ∧ ¬IsInfinite x

/-- The scalar is finite or the lowest one. -/
def IsScore {α : Type} [Scalar α] [SpecialValues α] (x : α) : Prop :=
  x = Scalar.lowest ∨ IsFinite x

/-- The operations treat special values as those of single precision do. -/
class LawfulSpecialValues (α : Type) [Scalar α] [SpecialValues α] : Prop where
  isNaN_add_left {x : α} (y : α) : IsNaN x → IsNaN (x + y)
  isNaN_mul_left {x : α} (y : α) : IsNaN x → IsNaN (x * y)
  isNaN_mul_right (x : α) {y : α} : IsNaN y → IsNaN (x * y)
  isNaN_exp {x : α} : IsNaN x → IsNaN (Scalar.exp x)
  isNaN_lowest_sub_lowest : IsNaN (Scalar.lowest - Scalar.lowest : α)
  isNaN_narrow (d : DType) (x : α) : IsNaN (Scalar.narrow d x) ↔ IsNaN x
  less_isNaN (x : α) {y : α} : IsNaN y → Scalar.less x y = false
  isFinite_zero : IsFinite (Scalar.zero : α)
  narrow_zero (d : DType) : Scalar.narrow d (Scalar.zero : α) = Scalar.zero
  add_number {x y : α} : IsFinite x → ¬IsNaN y → ¬IsNaN (x + y)
  mul_number {x y : α} : IsFinite x → IsFinite y → ¬IsNaN (x * y)
  div_number {x y : α} : IsFinite x → IsFinite y → Scalar.less Scalar.zero y = true → ¬IsNaN (x / y)
  log_number {x : α} : Scalar.less Scalar.zero x = true → ¬IsNaN (Scalar.log x)
  isFinite_exp_sub {x y : α} : IsFinite x → IsFinite y → Scalar.less y x = false →
    IsFinite (Scalar.exp (x - y))
  lowest_number : ¬IsNaN (Scalar.lowest : α)
  lowest_sub {y : α} : IsFinite y → Scalar.lowest - y = Scalar.lowest
  exp_lowest : Scalar.exp (Scalar.lowest : α) = Scalar.zero
  lowest_less {y : α} : IsFinite y → Scalar.less Scalar.lowest y = true
  less_asymm {x y : α} : IsScore x → IsScore y → Scalar.less x y = true → Scalar.less y x = false
  less_trans {x y z : α} : IsScore x → IsScore y → IsScore z → Scalar.less y x = false →
    Scalar.less z y = false → Scalar.less z x = false
  max_eq {x y : α} : IsScore x → IsScore y → Scalar.max x y = if Scalar.less x y then y else x

open LawfulSpecialValues

section

variable {α : Type} [Scalar α] [SpecialValues α] [LawfulSpecialValues α] {x y z : α}

theorem less_irrefl (hx : IsScore x) : Scalar.less x x = false := by
  cases h : Scalar.less x x with
  | false => rfl
  | true => rw [← less_asymm hx hx h, h]

omit [LawfulSpecialValues α] in
theorem isScore_lowest : IsScore (Scalar.lowest : α) := .inl rfl

theorem IsScore.max (hx : IsScore x) (hy : IsScore y) : IsScore (Scalar.max x y) := by
  rw [max_eq hx hy]
  split
  · exact hy
  · exact hx

theorem less_max_left (hx : IsScore x) (hy : IsScore y) :
    Scalar.less (Scalar.max x y) x = false := by
  rw [max_eq hx hy]
  split
  · next h => exact less_asymm hx hy h
  · exact less_irrefl hx

theorem less_max_right (hx : IsScore x) (hy : IsScore y) :
    Scalar.less (Scalar.max x y) y = false := by
  rw [max_eq hx hy]
  split
  · exact less_irrefl hy
  · next h => exact Bool.eq_false_of_not_eq_true h

theorem max_lowest_lowest : Scalar.max Scalar.lowest Scalar.lowest = (Scalar.lowest : α) := by
  rw [max_eq isScore_lowest isScore_lowest, ite_self]

/-- A score that a finite one does not exceed is finite. -/
theorem IsScore.isFinite_of_not_less (hx : IsScore x) (hy : IsFinite y)
    (h : Scalar.less x y = false) : IsFinite x := by
  obtain rfl | hx := hx
  · rw [lowest_less hy] at h
    exact nomatch h
  · exact hx

/-- A score below the largest one has a finite weight. -/
theorem isFinite_weight (hx : IsScore x) (hy : IsFinite y) (h : Scalar.less y x = false) :
    IsFinite (Scalar.exp (x - y)) := by
  obtain rfl | hx := hx
  · rw [lowest_sub hy, exp_lowest]
    exact isFinite_zero
  · exact isFinite_exp_sub hx hy h

/-- The largest of some scores and a first one is a score, and no other one exceeds it. -/
theorem isScore_foldl_max {xs : List α} (hxs : ∀ y ∈ xs, IsScore y) (hx : IsScore x) :
    IsScore (xs.foldl Scalar.max x) ∧ Scalar.less (xs.foldl Scalar.max x) x = false ∧
      ∀ y ∈ xs, Scalar.less (xs.foldl Scalar.max x) y = false := by
  induction xs generalizing x with
  | nil => exact ⟨hx, less_irrefl hx, nofun⟩
  | cons y xs ih =>
    obtain ⟨hy, hxs⟩ := List.forall_mem_cons.1 hxs
    obtain ⟨hscore, hmax, hle⟩ := ih hxs (hx.max hy)
    have hstep {z : α} (hz : IsScore z) (h : Scalar.less (Scalar.max x y) z = false) :
        Scalar.less ((y :: xs).foldl Scalar.max x) z = false :=
      less_trans hz (hx.max hy) hscore h hmax
    exact ⟨hscore, hstep hx (less_max_left hx hy),
      List.forall_mem_cons.2 ⟨hstep hy (less_max_right hx hy), hle⟩⟩

theorem isScore_maximum {xs : List α} (hxs : ∀ x ∈ xs, IsScore x) :
    IsScore (Scalar.maximum xs) ∧ ∀ x ∈ xs, Scalar.less (Scalar.maximum xs) x = false := by
  obtain ⟨hscore, -, hle⟩ := isScore_foldl_max hxs isScore_lowest
  exact ⟨hscore, hle⟩

theorem maximum_lowest {xs : List α} (hxs : ∀ x ∈ xs, x = Scalar.lowest) :
    Scalar.maximum xs = Scalar.lowest := by
  induction xs with
  | nil => rfl
  | cons x xs ih =>
    obtain ⟨rfl, htail⟩ := List.forall_mem_cons.1 hxs
    exact (congrArg (xs.foldl Scalar.max) max_lowest_lowest).trans (ih htail)

end

namespace Single

/-- Single-precision numbers with an exponential and a logarithm of their own. -/
@[reducible] def scalarWith (exp log : Float32 → Float32) : Scalar Float32 :=
  { (inferInstance : Scalar Float32) with exp := exp, log := log }

example : scalarWith Float32.exp Float32.log = instScalarFloat32 := rfl

instance : SpecialValues Float32 where
  IsNaN x := x.isNaN = true
  IsInfinite x := x.isInf = true

/-- The functions treat special values as an exponential and a logarithm do. -/
structure Exponential (exp log : Float32 → Float32) : Prop where
  nan {x : Float32} : x.isNaN = true → (exp x).isNaN = true
  lowest : exp negInfinity = 0.0
  finite {x : Float32} : x.isNaN = false → ¬0.0 < x → (exp x).isFinite = true
  log {x : Float32} : 0.0 < x → (log x).isNaN = false

/-- A rough exponential: zero for the lowest number and one for all others. -/
def stepExp (x : Float32) : Float32 := if x.isNaN then x else if x = negInfinity then 0.0 else 1.0

/-- A rough logarithm, right for one. -/
def stepLog (_ : Float32) : Float32 := 0.0

theorem exponential_step : Exponential stepExp stepLog where
  nan h := by rw [stepExp, if_pos h, h]
  lowest := rfl
  finite {x} h _ := by
    unfold stepExp
    rw [if_neg (Bool.eq_false_iff.1 h)]
    split <;> rfl
  log _ := show (0.0 : Float32).isNaN = false from rfl

variable {x y z : Float32}

theorem isFinite_iff : IsFinite x ↔ x.isFinite = true := by
  change ¬(unpacked x).isNaN = true ∧ ¬(unpacked x).isInf = true ↔ (unpacked x).isFinite = true
  cases unpacked x <;> simp [Float.Model.UnpackedFloat.isNaN, Float.Model.UnpackedFloat.isInf,
    Float.Model.UnpackedFloat.isFinite]

theorem score_lt_asymm (hx : IsScore x) (hy : IsScore y) (h : x < y) : ¬y < x := by
  obtain rfl | hx := hx
  · exact not_lt_negInfinity y
  · obtain rfl | hy := hy
    · exact absurd h (not_lt_negInfinity x)
    · rw [isFinite_iff] at hx hy
      rw [lt_iff_units hx hy] at h
      rw [lt_iff_units hy hx]
      omega

theorem score_not_lt_trans (hx : IsScore x) (hy : IsScore y) (hz : IsScore z) (hxy : ¬y < x)
    (hyz : ¬z < y) : ¬z < x := by
  obtain rfl | hx := hx
  · exact not_lt_negInfinity z
  · rw [isFinite_iff] at hx
    obtain rfl | hy := hy
    · exact absurd (negInfinity_lt hx) hxy
    · rw [isFinite_iff] at hy
      obtain rfl | hz := hz
      · exact absurd (negInfinity_lt hy) hyz
      · rw [isFinite_iff] at hz
        rw [lt_iff_units hy hx] at hxy
        rw [lt_iff_units hz hy] at hyz
        rw [lt_iff_units hz hx]
        omega

theorem lawful_scalarWith {exp log : Float32 → Float32} (h : Exponential exp log) :
    @LawfulSpecialValues Float32 (scalarWith exp log) _ := by
  let _ := scalarWith exp log
  have hless {x y : Float32} : Scalar.less x y = false ↔ ¬x < y := decide_eq_false_iff_not
  have hnarrow (d : DType) (x : Float32) : Scalar.narrow d x = round d x := by
    cases d with
    | f32 => exact (round_f32 x).symm
    | f16 | bf16 | i32 => rfl
  have hlt {x y : Float32} : Scalar.less x y = true ↔ x < y := decide_eq_true_iff
  have hnumber {x : Float32} (hx : IsScore x) : x.isNaN = false := by
    obtain rfl | hx := hx
    · exact isNaN_negInfinity
    · exact Bool.eq_false_iff.2 hx.1
  exact {
    isNaN_add_left y hx := isNaN_add_of_left hx y
    isNaN_mul_left y hx := isNaN_mul_of_left hx y
    isNaN_mul_right x _ hy := isNaN_mul_of_right x hy
    isNaN_exp := h.nan
    isNaN_lowest_sub_lowest := isNaN_negInfinity_sub_self
    isNaN_narrow d x := by
      rw [hnarrow]
      exact Bool.eq_iff_iff.1 (isNaN_round d x)
    less_isNaN x _ hy := hless.2 (not_lt_of_isNaN x hy)
    isFinite_zero := isFinite_iff.2 isFinite_zero
    narrow_zero d := (hnarrow d _).trans (round_zero d)
    add_number hx hy :=
      Bool.eq_false_iff.1 (isNaN_add_finite (isFinite_iff.1 hx) (Bool.eq_false_iff.2 hy))
    mul_number hx hy :=
      Bool.eq_false_iff.1 (isNaN_mul_finite (isFinite_iff.1 hx) (isFinite_iff.1 hy))
    div_number hx hy hpos := Bool.eq_false_iff.1
      (isNaN_div_finite (isFinite_iff.1 hx) (isFinite_iff.1 hy) (hlt.1 hpos))
    log_number hx := Bool.eq_false_iff.1 (h.log (hlt.1 hx))
    isFinite_exp_sub hx hy hle := by
      rw [isFinite_iff] at hx hy ⊢
      rw [hless, lt_iff_units hy hx, not_lt] at hle
      exact h.finite (isNaN_sub_finite hx hy) (not_pos_sub hx hy hle)
    lowest_number := Bool.eq_false_iff.1 isNaN_negInfinity
    lowest_sub hy := negInfinity_sub (isFinite_iff.1 hy)
    exp_lowest := h.lowest
    lowest_less hy := decide_eq_true (negInfinity_lt (isFinite_iff.1 hy))
    less_asymm hx hy hxy := hless.2 (score_lt_asymm hx hy (hlt.1 hxy))
    less_trans hx hy hz hxy hyz :=
      hless.2 (score_not_lt_trans hx hy hz (hless.1 hxy) (hless.1 hyz))
    max_eq hx hy :=
      (max_of_isNaN_eq_false (hnumber hx) (hnumber hy)).trans (if_congr hlt.symm rfl rfl) }

end Single

end TraceSubstitution
