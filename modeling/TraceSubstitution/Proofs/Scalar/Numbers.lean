import Mathlib.Algebra.BigOperators.Ring.Finset
import Mathlib.Algebra.Ring.Defs
import TraceSubstitution.Scalar.Basic

/-!
# Scalars that compute with numbers

`IsNumbers of` says that sums, differences and products of some scalars are those of
a commutative ring: nothing is rounded, and no other number than zero passes for zero.
Sums that are accumulated step by step then have a closed form, also where terms of
zero are left out (`IsNumbers.foldl_rows`). A commutative ring is made of numbers only,
whatever the other operations on scalars are taken to be (`RingScalars`).
-/

namespace TraceSubstitution

/-- The operations on the scalars `of a` are those of a commutative ring. -/
structure IsNumbers {R α : Type} [CommRing R] [Scalar α] (of : R → α) : Prop where
  add : ∀ a b, of a + of b = of (a + b)
  sub : ∀ a b, of a - of b = of (a - b)
  mul : ∀ a b, of a * of b = of (a * b)
  zero : Scalar.zero = of 0
  sumStart : Scalar.sumStart = of 0
  one : Scalar.one = of 1
  eq_of_same : ∀ {a b}, Scalar.same (of a) (of b) = true → a = b
  narrow : ∀ d a, Scalar.narrow d (of a) = of a

/-- The row of the scalars that stand for the numbers `f 0`, `f 1` and so on. -/
def numberRow {R α : Type} (of : R → α) (width : Nat) (f : Nat → R) : List α :=
  (List.range width).map fun c => of (f c)

theorem zipWith_map_range {β γ δ : Type} (f : β → γ → δ) (g : Nat → β) (h : Nat → γ) (n : Nat) :
    List.zipWith f ((List.range n).map g) ((List.range n).map h) =
      (List.range n).map fun i => f (g i) (h i) := by
  refine List.ext_getElem (by simp) fun i _ _ => ?_
  simp

/-- A list is made of its entries. -/
theorem eq_map_range_getD {β : Type} {xs : List β} {n : Nat} (h : xs.length = n) (a : β) :
    xs = (List.range n).map (xs.getD · a) := by
  refine List.ext_getElem (by simp [h]) fun i hi _ => ?_
  simp [List.getElem?_eq_getElem hi]

section

variable {R α : Type} (of : R → α) {width : Nat}

@[simp] theorem length_numberRow (f : Nat → R) : (numberRow of width f).length = width := by
  simp [numberRow]

theorem numberRow_congr {f g : Nat → R} (h : ∀ c < width, f c = g c) :
    numberRow of width f = numberRow of width g :=
  List.map_congr_left fun c hc => congrArg of (h c (List.mem_range.1 hc))

/-- A list of numbers is the row of its entries. -/
theorem map_eq_numberRow [Zero R] {xs : List R} (h : xs.length = width) :
    xs.map of = numberRow of width (xs.getD · 0) :=
  (congrArg (List.map of) (eq_map_range_getD h 0)).trans List.map_map

end

namespace IsNumbers

variable {R α : Type} [CommRing R] [Scalar α] {of : R → α} (h : IsNumbers of) {width : Nat}
include h

theorem replicate_zero (width : Nat) :
    List.replicate width Scalar.zero = numberRow of width fun _ => 0 := by
  simp [numberRow, h.zero, List.map_const']

theorem foldl_add (n : Nat) (f : Nat → R) (a : R) :
    ((List.range n).map fun i => of (f i)).foldl (· + ·) (of a) =
      of (a + ∑ i ∈ Finset.range n, f i) := by
  induction n with
  | zero => simp
  | succ n ih =>
    rw [List.range_succ, List.map_append, List.foldl_append, ih, Finset.sum_range_succ,
      ← add_assoc]
    exact h.add _ _

/-- The product of two rows. -/
theorem dot_eq (f g : Nat → R) : Scalar.dot (numberRow of width f) (numberRow of width g) =
    of (∑ c ∈ Finset.range width, f c * g c) := by
  unfold Scalar.dot Scalar.sum numberRow
  rw [zipWith_map_range, h.sumStart]
  simp only [h.mul]
  rw [h.foldl_add, zero_add]

theorem addScaled_eq (f : Nat → R) (s : R) (g : Nat → R) :
    Scalar.addScaled (numberRow of width f) (of s) (numberRow of width g) =
      numberRow of width fun c => f c + s * g c := by
  unfold Scalar.addScaled numberRow
  rw [zipWith_map_range]
  simp only [h.mul, h.add]

/-- Leaving out a multiple of zero changes nothing. -/
theorem skip_eq (f : Nat → R) (s : R) (g : Nat → R) :
    (if Scalar.same (of s) Scalar.zero then numberRow of width f
      else Scalar.addScaled (numberRow of width f) (of s) (numberRow of width g)) =
        numberRow of width fun c => f c + s * g c := by
  split
  · next hs =>
    rw [h.zero] at hs
    obtain rfl := h.eq_of_same hs
    simp
  · exact h.addScaled_eq f s g

omit [Scalar α] h in
/-- Multiples of rows that are added one after the other. -/
theorem foldl_rows {n : Nat} {step : List α → Nat → List α} {s : Nat → R} {g : Nat → Nat → R}
    (hstep : ∀ f, ∀ j < n, step (numberRow of width f) j =
      numberRow of width fun c => f c + s j * g j c) (f : Nat → R) :
    (List.range n).foldl step (numberRow of width f) =
      numberRow of width fun c => f c + ∑ j ∈ Finset.range n, s j * g j c := by
  induction n with
  | zero => simp
  | succ n ih =>
    rw [List.range_succ, List.foldl_append, ih fun f j hj => hstep f j (Nat.lt_succ_of_lt hj)]
    simp only [List.foldl_cons, List.foldl_nil, hstep _ n (Nat.lt_succ_self n),
      Finset.sum_range_succ, add_assoc]

end IsNumbers

/-- What a commutative ring lacks to be read as scalars. Nothing is known of these operations. -/
class RingScalars (R : Type) where
  /-- The quotient. -/
  div : R → R → R
  /-- What takes the place of the value below all numbers. -/
  lowest : R
  /-- The exponential. -/
  exp : R → R
  /-- The natural logarithm. -/
  log : R → R
  /-- The absolute value. -/
  abs : R → R
  /-- The larger of two values. -/
  max : R → R → R
  /-- Whether the first value is the smaller one. -/
  less : R → R → Bool
  /-- A static argument. -/
  ofFloat : Float → R
  /-- The point of the unit interval that a random word stands for. -/
  unitInterval : UInt32 → R

section

variable {R : Type} [CommRing R] [DecidableEq R] [RingScalars R]

instance (priority := low) : Scalar R where
  add := (· + ·)
  sub := (· - ·)
  mul := (· * ·)
  div := RingScalars.div
  zero := 0
  sumStart := 0
  one := 1
  lowest := RingScalars.lowest
  exp := RingScalars.exp
  log := RingScalars.log
  abs := RingScalars.abs
  max := RingScalars.max
  same x y := decide (x = y)
  less := RingScalars.less
  round _ x := x
  ofFloat := RingScalars.ofFloat
  unitInterval := RingScalars.unitInterval

theorem isNumbers_id : IsNumbers (id : R → R) where
  add _ _ := rfl
  sub _ _ := rfl
  mul _ _ := rfl
  zero := rfl
  sumStart := rfl
  one := rfl
  eq_of_same h := of_decide_eq_true h
  narrow d _ := by cases d <;> rfl

end

end TraceSubstitution
