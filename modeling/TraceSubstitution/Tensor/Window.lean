import TraceSubstitution.Tensor.Shape

/-!
# Windows into a dense buffer

The elements of a tensor lie in a buffer that is a dense box of some shape, and
the tensor is a window into the box: along every axis it takes a range. Only the
steps along the axes and the position of the first element are kept. `positions`
lists where the elements of a window lie, in the order of the elements, and
`IsWindow` says that steps and offset come from some box and some range along
every axis of it; `lt_of_mem_positions` shows that the positions then stay inside
the buffer.
-/

namespace TraceSubstitution

/-- Where the elements of a window with axes `dims` lie, the first at `offset`. -/
def positions : (dims strides : List Nat) → (offset : Nat) → List Nat
  | d :: dims, s :: strides, offset =>
    (List.range d).flatMap fun i => positions dims strides (offset + i * s)
  | _, _, offset => [offset]

@[simp] theorem positions_nil (strides : List Nat) (offset : Nat) :
    positions [] strides offset = [offset] := by
  cases strides <;> rfl

theorem positions_cons (d s : Nat) (dims strides : List Nat) (offset : Nat) :
    positions (d :: dims) (s :: strides) offset =
      (List.range d).flatMap fun i => positions dims strides (offset + i * s) := rfl

/-- Whether ranges of the given lengths at `starts` lie in a box, axis by axis. -/
def Fits : (starts lens box : List Nat) → Prop
  | [], [], [] => True
  | s :: starts, l :: lens, b :: box => s + l ≤ b ∧ Fits starts lens box
  | _, _, _ => False

/-- How far the element at `index` lies from the first one. -/
def shift : (index strides : List Nat) → Nat
  | i :: index, s :: strides => i * s + shift index strides
  | _, _ => 0

@[simp] theorem shift_nil (strides : List Nat) : shift [] strides = 0 := by
  cases strides <;> rfl

@[simp] theorem shift_cons (i s : Nat) (index strides : List Nat) :
    shift (i :: index) (s :: strides) = i * s + shift index strides := rfl

/-- Steps and offset of a window into a buffer of `size` elements: they come from ranges along
the axes of a dense box. -/
def IsWindow (dims strides : List Nat) (offset size : Nat) : Prop :=
  ∃ box starts, Fits starts dims box ∧ strides = rowMajor box ∧
    offset = shift starts strides ∧ size = volume box

theorem Fits.length_eq : ∀ {starts lens box : List Nat}, Fits starts lens box →
    lens.length = box.length
  | [], [], [], _ => rfl
  | _ :: _, _ :: _, _ :: _, h => congrArg (· + 1) (Fits.length_eq h.2)
  | [], _ :: _, _, h => h.elim
  | [], [], _ :: _, h => h.elim
  | _ :: _, [], _, h => h.elim
  | _ :: _, _ :: _, [], h => h.elim

theorem lt_of_mem_positions_fits : ∀ {starts lens box : List Nat} (base : Nat),
    Fits starts lens box → ∀ p ∈ positions lens (rowMajor box) (base + shift starts (rowMajor box)),
      p < base + volume box
  | [], [], [], base, _, p, hp => by
    have : p = base := by simpa using hp
    simp [this]
  | s :: starts, l :: lens, b :: box, base, h, p, hp => by
    obtain ⟨hs, hfits⟩ := h
    rw [rowMajor_cons, positions_cons, List.mem_flatMap] at hp
    obtain ⟨i, hi, hp⟩ := hp
    rw [List.mem_range] at hi
    have hoffset : base + shift (s :: starts) (volume box :: rowMajor box) + i * volume box =
        (base + (s + i) * volume box) + shift starts (rowMajor box) := by
      rw [shift_cons, Nat.add_mul]; omega
    rw [hoffset] at hp
    have hlt := lt_of_mem_positions_fits _ hfits p hp
    have hle : (s + i + 1) * volume box ≤ b * volume box := Nat.mul_le_mul_right _ (by omega)
    rw [Nat.add_mul, Nat.one_mul] at hle
    rw [volume_cons]
    omega
  | [], _ :: _, _, _, h, _, _ => h.elim
  | [], [], _ :: _, _, h, _, _ => h.elim
  | _ :: _, [], _, _, h, _, _ => h.elim
  | _ :: _, _ :: _, [], _, h, _, _ => h.elim

/-- The elements of a window lie in its buffer. -/
theorem lt_of_mem_positions {dims strides : List Nat} {offset size p : Nat}
    (h : IsWindow dims strides offset size) (hp : p ∈ positions dims strides offset) :
    p < size := by
  obtain ⟨box, starts, hfits, rfl, rfl, rfl⟩ := h
  have := lt_of_mem_positions_fits 0 hfits p (by rwa [Nat.zero_add])
  rwa [Nat.zero_add] at this

theorem fits_zero (dims : List Nat) : Fits (List.replicate dims.length 0) dims dims := by
  induction dims with
  | nil => trivial
  | cons d dims ih => exact ⟨by simp, ih⟩

theorem shift_zero (n : Nat) (strides : List Nat) : shift (List.replicate n 0) strides = 0 := by
  induction n generalizing strides with
  | zero => simp
  | succ n ih => cases strides with
    | nil => rfl
    | cons s strides => simp [List.replicate_succ, ih]

/-- A dense buffer is a window into itself. -/
theorem isWindow_dense (dims : List Nat) : IsWindow dims (rowMajor dims) 0 (volume dims) :=
  ⟨dims, List.replicate dims.length 0, fits_zero dims, rfl, (shift_zero _ _).symm, rfl⟩

theorem Fits.narrow {start len : Nat} : ∀ {starts dims box : List Nat} (axis : Nat),
    Fits starts dims box → start + len ≤ dims.getD axis 0 →
      Fits (starts.modify axis (· + start)) (dims.set axis len) box
  | [], [], [], _, _, _ => by simp [Fits]
  | s :: starts, d :: dims, b :: box, 0, h, hle => by
    have hle : start + len ≤ d := by simpa using hle
    have hfit : s + d ≤ b := h.1
    exact ⟨show s + start + len ≤ b by omega, h.2⟩
  | s :: starts, d :: dims, b :: box, axis + 1, h, hle =>
    ⟨h.1, Fits.narrow axis h.2 (by simpa using hle)⟩
  | [], _ :: _, _, _, h, _ => h.elim
  | [], [], _ :: _, _, h, _ => h.elim
  | _ :: _, [], _, _, h, _ => h.elim
  | _ :: _, _ :: _, [], _, h, _ => h.elim

theorem shift_modify (start : Nat) : ∀ (starts strides : List Nat) (axis : Nat),
    starts.length = strides.length → shift (starts.modify axis (· + start)) strides =
      shift starts strides + start * strides.getD axis 0
  | [], [], _, _ => by simp
  | i :: starts, s :: strides, 0, _ => by
    simp [Nat.add_mul]; omega
  | i :: starts, s :: strides, axis + 1, h => by
    have := shift_modify start starts strides axis (by simpa using h)
    simp only [List.modify_succ_cons, shift_cons, List.getD_cons_succ, this]
    omega

theorem Fits.length_starts : ∀ {starts lens box : List Nat}, Fits starts lens box →
    starts.length = box.length
  | [], [], [], _ => rfl
  | _ :: _, _ :: _, _ :: _, h => congrArg (· + 1) (Fits.length_starts h.2)
  | [], _ :: _, _, h => h.elim
  | [], [], _ :: _, h => h.elim
  | _ :: _, [], _, h => h.elim
  | _ :: _, _ :: _, [], h => h.elim

/-- Taking a range along one axis of a window gives a window into the same buffer. -/
theorem IsWindow.narrow {dims strides : List Nat} {offset size axis start len : Nat}
    (h : IsWindow dims strides offset size) (hle : start + len ≤ dims.getD axis 0) :
    IsWindow (dims.set axis len) strides (offset + start * strides.getD axis 0) size := by
  obtain ⟨box, starts, hfits, rfl, rfl, rfl⟩ := h
  refine ⟨box, starts.modify axis (· + start), hfits.narrow axis hle, rfl, ?_, rfl⟩
  rw [shift_modify _ _ _ _ (by simp [hfits.length_starts])]

/-- Whether steps are those of a dense buffer; along an axis of size one any step will do. -/
def isDense : (dims strides : List Nat) → Bool
  | d :: dims, s :: strides => (d == 1 || s == volume dims) && isDense dims strides
  | _, _ => true

@[simp] theorem isDense_rowMajor (dims : List Nat) : isDense dims (rowMajor dims) = true := by
  induction dims with
  | nil => rfl
  | cons d dims ih => simp [isDense, ih]

end TraceSubstitution
