import Mathlib.Data.List.Forall2
import TraceSubstitution.Proofs.Tensor.Blocks

/-!
# Walking a box like an odometer

An index of a box has one number for every axis, below the size of the axis
(`Inside`). Its `ordinal` is its place in row-major order, and the element at the
index lies at the position of this number in `positions` (`getElem?_positions`).

The indices can be met without being listed first. An odometer starts at zero along
every axis. It moves the last axis on, and an axis that comes to its end starts again
and moves the one before it (`advance`). One turn leads from an index to the one
whose ordinal is next, or from the last one back to zero (`advance_cases`). So
within as many turns as there are elements it meets every index once, in row-major
order (`getElem?_odometer`), and a buffer that is read on the way is read at the
positions of the elements (`readWalk_eq`).
-/

namespace TraceSubstitution

/-- Whether an index lies in a box with axes `dims`. -/
abbrev Inside (index dims : List Nat) : Prop := List.Forall₂ (· < ·) index dims

/-- The place of an index of a box in row-major order. -/
def ordinal (dims index : List Nat) : Nat := shift index (rowMajor dims)

@[simp] theorem ordinal_nil (index : List Nat) : ordinal [] index = 0 := by
  cases index <;> rfl

@[simp] theorem ordinal_cons (d i : Nat) (dims index : List Nat) :
    ordinal (d :: dims) (i :: index) = i * volume dims + ordinal dims index := rfl

@[simp] theorem ordinal_zero (dims : List Nat) (n : Nat) :
    ordinal dims (List.replicate n 0) = 0 := shift_zero n (rowMajor dims)

section

variable {dims strides index index' : List Nat} {offset count : Nat}

/-- The ordinal of an index is the number of elements before its element. -/
theorem ordinal_lt (h : Inside index dims) : ordinal dims index < volume dims := by
  induction h with
  | nil => exact Nat.one_pos
  | @cons i d index dims hi _ ih =>
    have hblock : (i + 1) * volume dims ≤ d * volume dims := Nat.mul_le_mul_right _ hi
    rw [Nat.succ_mul] at hblock
    rw [ordinal_cons, volume_cons]
    omega

/-- The index without a shift lies in every box that has an element. -/
theorem inside_zero (h : 0 < volume dims) : Inside (List.replicate dims.length 0) dims := by
  induction dims with
  | nil => exact .nil
  | cons d dims ih =>
    rw [volume_cons] at h
    exact .cons (Nat.pos_of_mul_pos_right h) (ih (Nat.pos_of_mul_pos_left h))

/-- The ordinal of an index whose axes come in two groups. -/
theorem ordinal_append {dims' m m' : List Nat} (h : m.length = dims.length) :
    ordinal (dims ++ dims') (m ++ m') = ordinal dims m * volume dims' + ordinal dims' m' := by
  induction dims generalizing m with
  | nil => simp [List.eq_nil_of_length_eq_zero h]
  | cons d dims ih =>
    obtain ⟨i, m, rfl⟩ := List.exists_cons_of_length_eq_add_one h
    rw [List.cons_append, List.cons_append, ordinal_cons, ordinal_cons, ih (Nat.succ.inj h),
      volume_append, Nat.add_mul, Nat.mul_assoc, Nat.add_assoc]

/-- The element at an index lies at the steps of the index from the first one. -/
theorem getElem?_positions (h : Inside index dims) (hstrides : dims.length = strides.length)
    (offset : Nat) :
    (positions dims strides offset)[ordinal dims index]? = some (offset + shift index strides) := by
  induction h generalizing strides offset with
  | nil => simp [positions_nil]
  | @cons i d index dims hi hrest ih =>
    obtain ⟨s, strides, rfl⟩ := List.exists_cons_of_length_eq_add_one hstrides.symm
    have hstrides : dims.length = strides.length := Nat.succ.inj hstrides
    rw [ordinal_cons, positions_cons, getElem?_flatMap_of_length
      (fun b => Tensor.length_positions hstrides _) hi (ordinal_lt hrest), ih hstrides, shift_cons,
      Nat.add_assoc]

/-- The next index of a box, and whether every axis has come to its end on the way. -/
def advance : (dims index : List Nat) → List Nat × Bool
  | d :: dims, i :: index =>
    match advance dims index with
    | (next, false) => (i :: next, false)
    | (next, true) => if i + 1 < d then ((i + 1) :: next, false) else (0 :: next, true)
  | _, _ => ([], true)

/-- One turn leads to the index that is next in row-major order, or from the last one to zero. -/
theorem advance_cases (h : Inside index dims) :
    (∃ next, advance dims index = (next, false) ∧ Inside next dims ∧
      ordinal dims next = ordinal dims index + 1) ∨
    advance dims index = (List.replicate dims.length 0, true) ∧
      ordinal dims index + 1 = volume dims := by
  induction h with
  | nil => exact .inr ⟨rfl, rfl⟩
  | @cons i d index dims hi hrest ih =>
    rcases ih with ⟨next, hnext, hinside, hordinal⟩ | ⟨hnext, hlast⟩
    · refine .inl ⟨i :: next, by simp only [advance, hnext], .cons hi hinside, ?_⟩
      rw [ordinal_cons, ordinal_cons, hordinal, Nat.add_assoc]
    · by_cases hend : i + 1 < d
      · have hpos : 0 < volume dims := by omega
        refine .inl ⟨(i + 1) :: List.replicate dims.length 0,
          by simp only [advance, hnext, if_pos hend], .cons hend (inside_zero hpos), ?_⟩
        rw [ordinal_cons, ordinal_cons, ordinal_zero, Nat.succ_mul]
        omega
      · obtain rfl : d = i + 1 := by omega
        refine .inr ⟨by simp only [advance, hnext, if_neg hend]; rfl, ?_⟩
        rw [ordinal_cons, volume_cons, Nat.succ_mul]
        omega

/-- The indices that an odometer shows in `count` turns from an index on. -/
def odometer (dims : List Nat) : (count : Nat) → (index : List Nat) → List (List Nat)
  | 0, _ => []
  | count + 1, index => index :: odometer dims count (advance dims index).1

@[simp] theorem length_odometer (dims : List Nat) (count : Nat) (index : List Nat) :
    (odometer dims count index).length = count := by
  induction count generalizing index with
  | zero => rfl
  | succ count ih => rw [odometer, List.length_cons, ih]

/-- As long as there are indices left, every turn shows the next one in row-major order. -/
theorem getElem?_odometer (h : Inside index dims)
    (hcount : ordinal dims index + count ≤ volume dims) {k : Nat} (hk : k < count) :
    ∃ shown, (odometer dims count index)[k]? = some shown ∧ Inside shown dims ∧
      ordinal dims shown = ordinal dims index + k := by
  induction count generalizing index k with
  | zero => exact absurd hk (Nat.not_lt_zero k)
  | succ count ih =>
    cases k with
    | zero => exact ⟨index, rfl, h, rfl⟩
    | succ k =>
      -- The odometer has not come round: at least one index is left after this one.
      rcases advance_cases h with ⟨next, hnext, hinside, hordinal⟩ | ⟨-, hlast⟩
      · obtain ⟨shown, hshown, hinside', hordinal'⟩ :=
          ih hinside (by omega) (Nat.lt_of_succ_lt_succ hk)
        refine ⟨shown, ?_, hinside', by omega⟩
        rw [odometer, List.getElem?_cons_succ, hnext]
        exact hshown
      · omega

/-- Every place in row-major order is that of an index. -/
theorem exists_ordinal_eq {k : Nat} (hk : k < volume dims) :
    ∃ index, Inside index dims ∧ ordinal dims index = k := by
  have hcount : ordinal dims (List.replicate dims.length 0) + volume dims ≤ volume dims := by simp
  obtain ⟨shown, -, hinside, hordinal⟩ :=
    getElem?_odometer (inside_zero (Nat.zero_lt_of_lt hk)) hcount hk
  exact ⟨shown, hinside, by simpa using hordinal⟩

/-- Every position is that of the element at some index. -/
theorem exists_of_mem_positions {p : Nat} (hstrides : dims.length = strides.length)
    (hp : p ∈ positions dims strides offset) :
    ∃ index, Inside index dims ∧ p = offset + shift index strides := by
  obtain ⟨k, hk⟩ := List.mem_iff_getElem?.1 hp
  have hlt : k < volume dims := by
    rw [← Tensor.length_positions hstrides offset]
    exact (List.getElem?_eq_some_iff.1 hk).1
  obtain ⟨index, hindex, rfl⟩ := exists_ordinal_eq hlt
  rw [getElem?_positions hindex hstrides] at hk
  exact ⟨index, hindex, (Option.some.inj hk).symm⟩

/-- Reads a buffer while an odometer goes through the indices of a box. Reading outside the buffer
panics. -/
def readWalk {α : Type} (data : Array α) (dims strides : List Nat) (offset : Nat) :
    Except Failure (List α) :=
  (odometer dims (volume dims) (List.replicate dims.length 0)).mapM fun index =>
    orPanic .outOfBounds data[offset + shift index strides]?

/-- The odometer comes to the positions of the elements in their order. -/
theorem map_shift_odometer (hstrides : dims.length = strides.length) (offset : Nat) :
    (odometer dims (volume dims) (List.replicate dims.length 0)).map
      (offset + shift · strides) = positions dims strides offset := by
  refine List.ext_getElem? fun k => ?_
  rcases Nat.lt_or_ge k (volume dims) with hk | hk
  · obtain ⟨shown, hshown, hinside, hordinal⟩ := getElem?_odometer
      (inside_zero (Nat.zero_lt_of_lt hk)) (by simp) hk
    rw [ordinal_zero, Nat.zero_add] at hordinal
    rw [List.getElem?_map, hshown, Option.map_some, ← hordinal, getElem?_positions hinside hstrides]
  · rw [List.getElem?_eq_none (by simpa using hk),
      List.getElem?_eq_none (by rwa [Tensor.length_positions hstrides])]

/-- What is read on a walk is what lies at the positions of the elements. -/
theorem readWalk_eq {α : Type} (data : Array α) (hstrides : dims.length = strides.length)
    (offset : Nat) : readWalk data dims strides offset =
      (positions dims strides offset).mapM fun p => orPanic .outOfBounds data[p]? := by
  rw [← map_shift_odometer hstrides, List.mapM_map]
  rfl

end

end TraceSubstitution
