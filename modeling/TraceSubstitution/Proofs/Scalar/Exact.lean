import Mathlib.Algebra.BigOperators.Group.List.Basic
import Mathlib.Algebra.Order.Field.Basic
import Mathlib.Analysis.SpecialFunctions.Log.Basic
import Mathlib.Tactic.Ring
import TraceSubstitution.Scalar.Basic
import TraceSubstitution.Text.Decimal

/-!
# Exact scalars

The operators can be read over numbers that are not rounded. `ExactScalars K` is what
this takes: the numbers form a linearly ordered field with a positive, strictly
increasing exponential that turns sums into products, and with its inverse. The
scalars are then the numbers and one value below all of them (`Extended K`), whose
exponential is zero. On lists of numbers the operations of `Scalar` are those of the
field. Nothing is rounded, and of the static arguments only zero is fixed.
-/

namespace TraceSubstitution

/-- An exponential of an ordered field and its inverse, and the numbers that static arguments
stand for. -/
class ExactScalars (K : Type) [Field K] [LinearOrder K] where
  /-- The exponential. -/
  exp : K → K
  /-- The natural logarithm. -/
  log : K → K
  /-- The number that a static argument stands for. -/
  number : Float → K
  exp_pos : ∀ a, 0 < exp a
  exp_strictMono : StrictMono exp
  exp_add : ∀ a b, exp (a + b) = exp a * exp b
  exp_log : ∀ a, 0 < a → exp (log a) = a
  number_zero : number 0 = 0

/-- The numbers of a field, and one value below all of them. -/
inductive Extended (K : Type) where
  /-- The value below all numbers. -/
  | lowest
  /-- A number. -/
  | of (a : K)
deriving DecidableEq

namespace Extended

variable {K : Type}

/-- An operation on numbers; where the lowest value takes part, it is the result. -/
def lift (f : K → K → K) : Extended K → Extended K → Extended K
  | of a, of b => of (f a b)
  | _, _ => lowest

/-- The larger of two values. -/
def max [LinearOrder K] : Extended K → Extended K → Extended K
  | lowest, y => y
  | x, lowest => x
  | of a, of b => of (a ⊔ b)

/-- Whether the first value is the smaller one. -/
def less [LinearOrder K] : Extended K → Extended K → Bool
  | _, lowest => false
  | lowest, of _ => true
  | of a, of b => decide (a < b)

end Extended

open Extended ExactScalars

section

variable {K : Type} [Field K] [LinearOrder K] [ExactScalars K]

instance : Scalar (Extended K) where
  add := lift (· + ·)
  sub := lift (· - ·)
  mul := lift (· * ·)
  div := lift (· / ·)
  zero := of 0
  sumStart := of 0
  one := of 1
  lowest := lowest
  exp
    | lowest => of 0
    | of a => of (exp a)
  log
    | lowest => lowest
    | of a => if 0 < a then of (log a) else lowest
  abs
    | lowest => lowest
    | of a => of |a|
  max := Extended.max
  same x y := decide (x = y)
  less := Extended.less
  round _ x := x
  ofFloat x := of (number x)
  unitInterval word := of ((word >>> 8).toNat / 2 ^ 24)

namespace Extended

@[simp] theorem of_add (a b : K) : (of a + of b : Extended K) = of (a + b) := rfl

@[simp] theorem of_sub (a b : K) : (of a - of b : Extended K) = of (a - b) := rfl

@[simp] theorem lowest_sub (a : K) : (lowest - of a : Extended K) = lowest := rfl

@[simp] theorem of_mul (a b : K) : (of a * of b : Extended K) = of (a * b) := rfl

@[simp] theorem of_div (a b : K) : (of a / of b : Extended K) = of (a / b) := rfl

@[simp] theorem zero_eq : (Scalar.zero : Extended K) = of 0 := rfl

@[simp] theorem sumStart_eq : (Scalar.sumStart : Extended K) = of 0 := rfl

@[simp] theorem lowest_eq : (Scalar.lowest : Extended K) = lowest := rfl

@[simp] theorem exp_of (a : K) : Scalar.exp (of a) = of (exp a) := rfl

@[simp] theorem exp_lowest : Scalar.exp (lowest : Extended K) = of 0 := rfl

theorem log_of {a : K} (h : 0 < a) : Scalar.log (of a) = of (log a) := if_pos h

@[simp] theorem max_of (a b : K) : Scalar.max (of a) (of b) = of (a ⊔ b) := rfl

@[simp] theorem max_lowest_left (x : Extended K) : Scalar.max lowest x = x := rfl

@[simp] theorem max_lowest_right (x : Extended K) : Scalar.max x lowest = x := by
  cases x <;> rfl

@[simp] theorem same_of (a b : K) : Scalar.same (of a) (of b) = decide (a = b) :=
  decide_eq_decide.2 (Extended.of.injEq a b ▸ Iff.rfl)

@[simp] theorem same_lowest (a : K) : Scalar.same (of a) lowest = false :=
  decide_eq_false nofun

@[simp] theorem same_self (x : Extended K) : Scalar.same x x = true := decide_eq_true rfl

@[simp] theorem less_of (a b : K) : Scalar.less (of a) (of b) = decide (a < b) := rfl

@[simp] theorem narrow_eq (d : DType) (x : Extended K) : Scalar.narrow d x = x := by
  cases d <;> rfl

@[simp] theorem ofFloat_eq (x : Float) : (Scalar.ofFloat x : Extended K) = of (number x) := rfl

end Extended

/-- Adds `c` times the second list to the first one, exactly. -/
def addMultiple (xs : List K) (c : K) (ys : List K) : List K :=
  List.zipWith (fun x y => x + c * y) xs ys

omit [LinearOrder K] [ExactScalars K] in
theorem length_addMultiple (xs : List K) (c : K) (ys : List K) :
    (addMultiple xs c ys).length = min xs.length ys.length :=
  List.length_zipWith

omit [LinearOrder K] [ExactScalars K] in
/-- Zero times a row adds nothing to a row that is not longer. -/
theorem addMultiple_zero {xs ys : List K} (h : xs.length ≤ ys.length) :
    addMultiple xs 0 ys = xs := by
  refine List.ext_getElem (by rw [length_addMultiple, Nat.min_eq_left h]) fun i _ _ => ?_
  simp [addMultiple]

omit [LinearOrder K] [ExactScalars K] in
/-- What is added to a scaled row may be scaled afterwards. -/
theorem addMultiple_div (xs : List K) (c t : K) (ys : List K) :
    addMultiple (xs.map (· / t)) (c / t) ys = (addMultiple xs c ys).map (· / t) := by
  unfold addMultiple
  rw [List.zipWith_map_left, List.map_zipWith]
  congr 1
  funext x y
  ring

namespace Extended

theorem foldl_add (xs : List K) (a : K) :
    (xs.map of).foldl (· + ·) (of a) = of (a + xs.sum) := by
  induction xs generalizing a with
  | nil => simp
  | cons x xs ih => simp [ih, add_assoc]

theorem sum_of (xs : List K) : Scalar.sum (xs.map of) = of xs.sum := by
  unfold Scalar.sum
  rw [sumStart_eq, foldl_add, zero_add]

theorem dot_of (xs ys : List K) :
    Scalar.dot (xs.map of) (ys.map of) = of (List.zipWith (· * ·) xs ys).sum := by
  unfold Scalar.dot
  rw [← sum_of, List.zipWith_map, List.map_zipWith]
  rfl

theorem addScaled_of (xs : List K) (c : K) (ys : List K) :
    Scalar.addScaled (xs.map of) (of c) (ys.map of) = (addMultiple xs c ys).map of := by
  unfold Scalar.addScaled addMultiple
  rw [List.zipWith_map, List.map_zipWith]
  rfl

/-- A list that holds a number has a number as its largest value. -/
theorem exists_foldl_max {xs : List (Extended K)} {x : Extended K}
    (h : x ≠ lowest ∨ ∃ a, of a ∈ xs) : ∃ m, xs.foldl Scalar.max x = of m := by
  induction xs generalizing x with
  | nil =>
    obtain hx | ⟨a, ha⟩ := h
    · cases x with
      | lowest => exact absurd rfl hx
      | of m => exact ⟨m, rfl⟩
    · exact absurd ha List.not_mem_nil
  | cons y xs ih =>
    refine ih ?_
    obtain hx | ⟨a, ha⟩ := h
    · refine .inl ?_
      cases x <;> cases y <;> simp_all
    · obtain rfl | ha := List.mem_cons.1 ha
      · refine .inl ?_
        cases x <;> simp
      · exact .inr ⟨a, ha⟩

theorem exists_maximum {xs : List (Extended K)} {a : K} (h : of a ∈ xs) :
    ∃ m, Scalar.maximum xs = of m := exists_foldl_max (.inr ⟨a, h⟩)

theorem maximum_replicate (n : Nat) :
    Scalar.maximum (List.replicate n (lowest : Extended K)) = lowest := by
  unfold Scalar.maximum
  induction n with
  | zero => rfl
  | succ n ih => exact ih

end Extended

namespace ExactScalars

theorem exp_sub (a b : K) : exp (a - b) = exp a / exp b := by
  rw [eq_div_iff (exp_pos b).ne', ← exp_add, sub_add_cancel]

/-- The logarithm of a positive number comes from that of its ratio to an exponential. -/
theorem add_log_div [IsStrictOrderedRing K] (m : K) {a : K} (h : 0 < a) :
    m + log (a / exp m) = log a := by
  refine exp_strictMono.injective ?_
  rw [exp_add, exp_log _ (div_pos h (exp_pos m)), exp_log a h,
    mul_div_cancel₀ _ (exp_pos m).ne']

end ExactScalars

end

/-- The real number that the parts of a double-precision number stand for. -/
noncomputable def BinaryParts.toReal : BinaryParts → ℝ
  | finite negative m q => (if negative then -1 else 1) * (m * 2 ^ q)
  | infinite _ => 0
  | nan => 0

/-- The reals are exact scalars. -/
noncomputable instance : ExactScalars ℝ where
  exp := Real.exp
  log := Real.log
  number x := (BinaryParts.ofFloat x).toReal
  exp_pos := Real.exp_pos
  exp_strictMono := Real.exp_strictMono
  exp_add := Real.exp_add
  exp_log _ := Real.exp_log
  number_zero := by
    have hparts : BinaryParts.ofFloat 0 = .finite false 0 (-1074) := by
      rfl
    rw [hparts]
    simp [BinaryParts.toReal]

example : number (1.5 : Float) = (3 / 2 : ℝ) := by
  have hparts : BinaryParts.ofFloat 1.5 = .finite false 0x18000000000000 (-52) := by
    rfl
  change (BinaryParts.ofFloat 1.5).toReal = 3 / 2
  rw [hparts]
  norm_num [BinaryParts.toReal]

end TraceSubstitution
