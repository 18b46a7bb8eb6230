import TraceSubstitution.Proofs.Operator.Execution
import TraceSubstitution.Proofs.Tensor.Views

/-!
# Calls on views

An operator is handed dense tensors, whatever the layout of the operands of a call.
So tensors that cannot be told apart by their types and by reading them
(`Tensor.Alike`) can stand for each other: a call on views and a call on dense copies
of them end in the same way, whatever the operator computes from strides, offsets and
buffers.
-/

namespace TraceSubstitution

namespace Tensor

variable {α : Type}

/-- Whether two tensors have one type and read alike. -/
def Alike (t u : Tensor α) : Prop := t.type = u.type ∧ t.read = u.read

theorem alike_iff {t u : Tensor α} : t.Alike u ↔ t.contents = u.contents := by
  rw [Alike, contents_eq_iff, read_eq_ok, read_eq_ok, Except.ok.injEq]

theorem alike_contiguous (t : Tensor α) : t.Alike t.contiguous :=
  alike_iff.2 (contents_eq_iff.2 ⟨t.type_contiguous.symm, t.elements_contiguous.symm⟩)

theorem contiguous_contiguous (t : Tensor α) : t.contiguous.contiguous = t.contiguous :=
  (contiguous_congr (alike_iff.1 t.alike_contiguous)).symm

end Tensor

namespace Operator

variable {α : Type}

/-- Operands that are alike, or absent alike, have the same contents. -/
theorem map_contents_of_alike {xs ys : List (Option (Tensor α))}
    (h : List.Forall₂ (Option.Rel Tensor.Alike) xs ys) :
    xs.map (·.map Tensor.contents) = ys.map (·.map Tensor.contents) := by
  rw [← List.forall₂_eq_eq_eq, List.forall₂_map_left_iff, List.forall₂_map_right_iff]
  refine h.imp fun x y hxy => ?_
  cases hxy with
  | none => rfl
  | some halike => exact congrArg some (Tensor.alike_iff.1 halike)

/-- Operators do not see how their operands are laid out. What they are handed instead of a tensor
is its dense form: the same type, what is read of the tensor as the buffer, and the steps of the
shape from the start of the buffer on; this form is its own. So calls on operands that are alike one
by one end alike, with the same outputs, the same error or the same panic. -/
theorem layout_hidden :
    (∀ t : Tensor α, t.contiguous.type = t.type ∧ t.read = .ok t.contiguous.storage.toList ∧
      t.contiguous.strides = t.type.shape.strides ∧ t.contiguous.offset = 0 ∧
      t.contiguous.contiguous = t.contiguous) ∧
    ∀ (o : Operator α) (attrs : Attrs) (xs ys : List (Option (Tensor α))),
      List.Forall₂ (Option.Rel Tensor.Alike) xs ys →
        o.execute xs attrs = o.execute ys attrs ∧
          o.executeVerified xs attrs = o.executeVerified ys attrs := by
  refine ⟨fun t => ⟨t.type_contiguous, ?_, ?_, ?_, t.contiguous_contiguous⟩,
    fun o attrs xs ys h => ?_⟩
  · rw [Tensor.read_eq_ok, Tensor.contiguous_eq_dense]
    rfl
  · rw [Tensor.contiguous_eq_dense]
    rfl
  · rw [Tensor.contiguous_eq_dense]
    rfl
  · have hcontents := map_contents_of_alike h
    exact ⟨execute_congr hcontents attrs, executeVerified_congr hcontents attrs⟩

/-- An operator that shows the layout of its operand: the steps, and then the offset. -/
def layoutOf : Operator Nat where
  id := ⟨0⟩
  space := "probe"
  name := "layout"
  signature := Signature.empty.tensor "x"
  outputTypes := fun _ => .ok [⟨⟨[3]⟩, .i32, .host⟩]
  compute := fun args => do
    let x ← args.tensor 0
    let shown := x.strides.toArray.push x.offset
    if h : shown.size = 3 then return [Tensor.dense ⟨⟨[3]⟩, .i32, .host⟩ shown h]
    else .error (.panic .outOfBounds)

/-- The middle of the numbered rows and its dense copy have different layouts, and one layout is
shown for both. -/
theorem layout_hidden_middle : ∃ middle : Tensor Nat,
    Tensor.numberedRows.narrow 1 1 2 = .ok middle ∧
    (middle.strides = [4, 1] ∧ middle.offset = 1) ∧
    (layoutOf.execute [some middle] Dict.empty =
        layoutOf.execute [some middle.contiguous] Dict.empty ∧
      layoutOf.executeVerified [some middle] Dict.empty =
        layoutOf.executeVerified [some middle.contiguous] Dict.empty) ∧
    (layoutOf.executeVerified [some middle] Dict.empty).map (·.map Tensor.elements) =
      .ok [[2, 1, 0]] := by
  refine ⟨_, rfl, ⟨rfl, rfl⟩, layout_hidden.2 layoutOf Dict.empty _ _
    (.cons (.some (Tensor.alike_contiguous _)) .nil), by rfl⟩

end Operator

end TraceSubstitution
