import TraceSubstitution.Tensor.Tensor

/-!
# Rows of a buffer

A dense buffer read as rows of one width. Reading a row that is not wholly in the
buffer panics.
-/

namespace TraceSubstitution

/-- A dense buffer read as rows. -/
structure Rows (α : Type) where
  /-- The buffer. -/
  data : Array α
  /-- The number of elements of a row. -/
  width : Nat

namespace Rows

variable {α : Type}

/-- The row with a number. -/
def row (m : Rows α) (i : Nat) : Except Failure (List α) :=
  (slice m.data (i * m.width) m.width).map Array.toList

/-- Panics unless the first `count` rows lie in the buffer. -/
def reach (m : Rows α) (count : Nat) : Except Failure Unit :=
  if count * m.width ≤ m.data.size then .ok () else .error (.panic .outOfBounds)

theorem reach_eq_ok_iff {m : Rows α} {count : Nat} :
    m.reach count = .ok () ↔ count * m.width ≤ m.data.size := by
  unfold reach
  split
  · next h => exact iff_of_true rfl h
  · next h => exact iff_of_false nofun h

/-- The elements of a row that lies in the buffer. -/
def values (m : Rows α) (i : Nat) : List α :=
  (m.data.extract (i * m.width) (i * m.width + m.width)).toList

theorem row_eq_ok {m : Rows α} {i : Nat} (h : i * m.width + m.width ≤ m.data.size) :
    m.row i = .ok (m.values i) := by
  simp [row, slice_eq_ok h, values, Except.map]

theorem length_values {m : Rows α} {i : Nat} (h : i * m.width + m.width ≤ m.data.size) :
    (m.values i).length = m.width := by
  simp [values]; omega

end Rows

namespace Tensor

variable {α : Type}

/-- The elements of a tensor as rows of the given width; they must lie in one piece. -/
def rows (t : Tensor α) (width : Nat) : Except Failure (Rows α) :=
  t.block.map (⟨·, width⟩)

end Tensor

end TraceSubstitution
