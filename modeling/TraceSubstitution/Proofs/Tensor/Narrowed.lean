import TraceSubstitution.Proofs.Scalar.Patterns
import TraceSubstitution.Proofs.Tensor.Kept
import TraceSubstitution.Tensor.Sampling

/-!
# Tensors hold values of their element type

A tensor is narrowed if every value in its buffer is one of its element type: narrowing it
changes nothing. Whatever makes a tensor narrows the values that it stores, or shares or
copies a buffer of a tensor of the same element type (`Tensor.kept_narrowed`), so all tensors
that can be made are narrowed (`Tensor.Made.narrowed`). The operators compute with any numbers
in between, but their outputs are made in one of these ways.

A narrowed tensor is made once more from its type and its elements
(`Tensor.Narrowed.exists_again`).
-/

namespace TraceSubstitution

namespace Tensor

variable {α : Type} {t u : Tensor α}

theorem mem_storage_of_mem_elements {x : α} (h : x ∈ t.elements) : x ∈ t.storage := by
  rw [elements_eq_gathered] at h
  obtain ⟨p, -, rfl⟩ := List.mem_map.1 h
  exact Array.getElem_mem _

variable [Scalar α]

/-- All values in the buffer are values of the element type. -/
def Narrowed (t : Tensor α) : Prop := ∀ x ∈ t.storage, Scalar.narrow t.type.dtype x = x

/-- A range shares the buffer. -/
theorem Narrowed.narrow (h : t.Narrowed) {axis start len : Nat}
    (hu : t.narrow axis start len = .ok u) : u.Narrowed := by
  unfold Tensor.narrow at hu
  split at hu
  · split at hu
    · obtain rfl := Except.ok.inj hu
      exact h
    · cases hu
  · cases hu

/-- A copy has values of the buffer that it is copied from. -/
theorem Narrowed.contiguous (h : t.Narrowed) : t.contiguous.Narrowed := by
  rw [contiguous_eq_dense]
  intro x hx
  exact h x (mem_storage_of_mem_elements (List.mem_toArray.1 hx))

/-- Narrowed elements make the same tensor again. -/
theorem Narrowed.exists_again (h : t.Narrowed) :
    ∃ u, ofElements t.type t.elements.toArray = .ok u ∧ u.type = t.type ∧
      u.elements = t.elements := by
  have hsize : t.elements.toArray.size = t.type.numElements := by simp [size]
  obtain ⟨u, hu, htype, helements⟩ := exists_ofElements hsize
  refine ⟨u, hu, htype, ?_⟩
  rw [helements, List.map_toArray, List.toList_toArray]
  refine (List.map_congr_left fun x hx => ?_).trans (List.map_id _)
  exact h x (mem_storage_of_mem_elements hx)

end Tensor

/-- Narrowing a value again changes nothing. -/
class Scalar.NarrowsOnce (α : Type) [Scalar α] : Prop where
  narrow_narrow (d : DType) (x : α) : Scalar.narrow d (Scalar.narrow d x) = Scalar.narrow d x

instance : Scalar.NarrowsOnce Float32 where
  narrow_narrow d x := by simp only [Scalar.narrow_eq_round, Single.round_round]

/-- Whatever makes a tensor of elements narrows them, for any type. -/
theorem Tensor.kept_narrowed {α : Type} [Scalar α] [Scalar.NarrowsOnce α] :
    Kept (fun _ => True) (Narrowed : Tensor α → Prop) where
  withLastDim _ := trivial
  leading _ _ := trivial
  ofElements {type xs t} _ ht := by
    unfold ofElements at ht
    split at ht
    · obtain rfl := Except.ok.inj ht
      intro x hx
      obtain ⟨y, -, rfl⟩ := Array.mem_map.1 hx
      exact Scalar.NarrowsOnce.narrow_narrow type.dtype y
    · cases ht
  narrow h hu := h.narrow hu
  contiguous h := h.contiguous

namespace Tensor

/-- The tensors that can be made: from elements, filled with one value or with random ones, by
taking ranges and copying, by addition, and as outputs of built-in operators and of the reference
kernel. -/
inductive Made : Tensor Float32 → Prop where
  | ofElements {type : TensorType} {xs : Array Float32} {t : Tensor Float32} :
    Tensor.ofElements type xs = .ok t → Made t
  | full (type : TensorType) (x : Float32) : Made (full type x)
  | zeros (type : TensorType) : Made (zeros type)
  | normal (type : TensorType) (std : Float32) (seed : UInt64) : Made (normal type std seed)
  | narrow {t u : Tensor Float32} {axis start len : Nat} : Made t →
    t.narrow axis start len = .ok u → Made u
  | contiguous {t : Tensor Float32} : Made t → Made t.contiguous
  | add {t u sum : Tensor Float32} : Made t → Made u → t.add u = .ok sum → Made sum
  | output {config : FlashConfig} {blockSize : Nat} {probe : Bool} {b : Builtin Float32}
    {operands : List (Option (Tensor Float32))} {attrs : Attrs} {ts : List (Tensor Float32)}
    {t : Tensor Float32} : b ∈ builtins config blockSize probe →
    (∀ x, some x ∈ operands → Made x) → b.operator.execute operands attrs = .ok ts → t ∈ ts → Made t
  | forward {config : FlashConfig} {blockSize : Nat} {probe : Bool} {q k v : Tensor Float32}
    {scale : Float32} {causal : Bool} {r : FlashForward Float32} {t : Tensor Float32} :
    Made q → Made k → Made v →
    (Flash.reference config blockSize probe).forward q k v scale causal = .ok r →
    t ∈ [r.primary, r.auxiliary] → Made t
  | backward {config : FlashConfig} {blockSize : Nat} {probe : Bool}
    {x : FlashBackwardInput Float32} {scale : Float32} {causal : Bool} {g : FlashGradients Float32}
    {t : Tensor Float32} : (∀ u ∈ [x.dOut, x.q, x.k, x.v, x.out, x.lse], Made u) →
    (Flash.reference config blockSize probe).backward x scale causal = .ok g →
    t ∈ [g.dq, g.dk, g.dv] → Made t

theorem narrowed_normal (type : TensorType) (std : Float32) (seed : UInt64) :
    (normal type std seed).Narrowed := by
  intro x hx
  obtain ⟨y, -, rfl⟩ := List.mem_map.1 (List.mem_toArray.1 hx)
  exact Scalar.NarrowsOnce.narrow_narrow type.dtype y

/-- Every way to make a tensor makes a narrowed one. -/
theorem Made.narrowed {t : Tensor Float32} (h : t.Made) : t.Narrowed := by
  induction h with
  | ofElements ht => exact kept_narrowed.ofElements trivial ht
  | full type x => exact kept_narrowed.full trivial x
  | zeros type => exact kept_narrowed.full trivial Scalar.zero
  | normal type std seed => exact narrowed_normal type std seed
  | narrow _ hu ih => exact ih.narrow hu
  | contiguous _ ih => exact ih.contiguous
  | add _ _ hsum => exact (kept_narrowed.ensures_add trivial _).of_eq_ok hsum
  | output hb _ hts ht =>
    exact (Builtin.ensures_execute kept_narrowed hb (fun _ _ => trivial) _).of_eq_ok hts _ ht
  | forward _ _ _ hr ht =>
    exact (Flash.ensures_reference_forward _ _ _ kept_narrowed _ _ _ _ _).of_eq_ok hr _ ht
  | backward _ hg ht =>
    exact (Flash.ensures_reference_backward _ _ _ kept_narrowed _ _ _).of_eq_ok hg _ ht

/-- Every value in the buffer of a tensor that can be made is one of its element type, and the
tensor can be made again from its type and its elements. -/
theorem Made.values_of_type {t : Tensor Float32} (h : t.Made) :
    (∀ x ∈ t.storage, Scalar.narrow t.type.dtype x = x ∧ Single.round t.type.dtype x = x) ∧
      ∃ u, Tensor.ofElements t.type t.elements.toArray = .ok u ∧ u.type = t.type ∧
        u.elements = t.elements := by
  refine ⟨fun x hx => ?_, h.narrowed.exists_again⟩
  have hnarrow := h.narrowed x hx
  exact ⟨hnarrow, Scalar.narrow_eq_round t.type.dtype x ▸ hnarrow⟩

/-- Numbers that half precision does not hold: one between two values, one below the smallest
positive value, and one beyond all of them; and the negative zero. -/
def betweenHalves : Array Float32 := #[2051, Float32.ofBits 0x32ffffff, 70000, -0.0]

/-- These numbers at half precision, and a view of two of them. -/
theorem Made.values_of_type_halves : ∃ t u : Tensor Float32,
    Tensor.ofElements ⟨⟨[4]⟩, .f16, .host⟩ betweenHalves = .ok t ∧ Tensor.narrow t 0 1 2 = .ok u ∧
      t.elements = [2052, 0, Float32.ofBits 0x7f800000, -0.0] ∧ u.Made ∧
      (∀ x ∈ u.storage, Scalar.narrow u.type.dtype x = x ∧ Single.round u.type.dtype x = x) ∧
      ∃ again, Tensor.ofElements u.type u.elements.toArray = .ok again ∧ again.type = u.type ∧
        again.elements = u.elements := by
  have hsize : betweenHalves.size = (⟨⟨[4]⟩, .f16, .host⟩ : TensorType).numElements := rfl
  obtain ⟨t, ht, -, helements⟩ := exists_ofElements hsize
  obtain ⟨u, hu⟩ : ∃ u, Tensor.narrow t 0 1 2 = .ok u := by
    obtain rfl := Except.ok.inj ht
    exact ⟨_, rfl⟩
  have hmade : u.Made := (Made.ofElements ht).narrow hu
  refine ⟨t, u, ht, hu, ?_, hmade, hmade.values_of_type⟩
  rw [helements, Array.toList_map]
  rfl

end Tensor

end TraceSubstitution
