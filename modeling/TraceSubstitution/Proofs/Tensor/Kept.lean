import TraceSubstitution.Proofs.Builtin

/-!
# Properties that operators pass on

Operators make their outputs in few ways: from elements for a type, as ranges of tensors, and
as copies of them. The type is that of an operand, has another last axis, or has only the
leading axes of an operand. `Tensor.Kept T P` says that a property `T` of types and a property
`P` of tensors are kept on all these ways. Then the outputs of the reference kernel and of the
built-in operators have the property `P`, if the types of the operands have the property `T`:
`Flash.ensures_reference_forward`, `Flash.ensures_reference_backward` and
`Builtin.ensures_execute`.
-/

namespace TraceSubstitution

section

variable {β γ : Type} {x : Except Failure β} {Q : β → Prop}

/-- What the operation returns, if it returns anything, has the property `Q`. -/
abbrev Ensures (x : Except Failure β) (Q : β → Prop) : Prop := Ends (fun _ => True) x Q

theorem Ensures.of_eq_ok (h : Ensures x Q) {b : β} (hb : x = .ok b) : Q b := by
  rw [hb] at h
  exact h

theorem ensures_of_forall (h : ∀ b, x = .ok b → Q b) : Ensures x Q := by
  cases x with
  | error e => trivial
  | ok b => exact h b rfl

/-- Only the last step matters. -/
theorem ensures_bind {f : β → Except Failure γ} {R : γ → Prop} (h : ∀ b, Ensures (f b) R) :
    Ensures (x >>= f) R :=
  ends_bind.2 (ensures_of_forall fun b _ => h b)

theorem forall_mem_three {a b c : β} (ha : Q a) (hb : Q b) (hc : Q c) : ∀ x ∈ [a, b, c], Q x :=
  List.forall_mem_cons.2 ⟨ha, List.forall_mem_cons.2 ⟨hb, List.forall_mem_singleton.2 hc⟩⟩

end

theorem Operands.mem_of_optional {τ : Type} {args : Operands τ} {i : Nat} {x : τ}
    (h : args.optional i = some x) : some x ∈ args.tensors :=
  List.mem_of_getElem? (Option.join_eq_some_iff.1 h)

/-- What holds of all operands that are there holds of each that is asked for. -/
theorem Operands.ensures_tensor {τ : Type} {args : Operands τ} {P : τ → Prop}
    (h : ∀ x, some x ∈ args.tensors → P x) (i : Nat) : Ensures (args.tensor i) P :=
  ensures_of_forall fun x hx => h x (mem_of_optional (tensor_eq_ok_iff.1 hx))

variable {α : Type} [Scalar α]

/-- Types with another last axis and types with leading axes have the property `T`, and what is
made of elements for a type with this property has the property `P`; so have ranges and copies of
what has it. -/
structure Tensor.Kept (T : TensorType → Prop) (P : Tensor α → Prop) : Prop where
  withLastDim {type type' : TensorType} {size : Nat} :
    Require.withLastDim type size = .ok type' → T type'
  leading {dims : List Nat} {shape : Shape} (device : Device) :
    Shape.ofDims? dims = some shape → T ⟨shape, .f32, device⟩
  ofElements {type : TensorType} {xs : Array α} {t : Tensor α} :
    T type → Tensor.ofElements type xs = .ok t → P t
  narrow {t u : Tensor α} {axis start len : Nat} : P t → t.narrow axis start len = .ok u → P u
  contiguous {t : Tensor α} : P t → P t.contiguous

namespace Tensor.Kept

variable {T : TensorType → Prop} {P : Tensor α → Prop} (kept : Kept T P)
include kept

theorem ensures_withLastDim (type : TensorType) (size : Nat) :
    Ensures (Require.withLastDim type size) T :=
  ensures_of_forall fun _ h => kept.withLastDim h

theorem ensures_ofElements {type : TensorType} (h : T type) (xs : Array α) :
    Ensures (Tensor.ofElements type xs) P :=
  ensures_of_forall fun _ ht => kept.ofElements h ht

theorem ensures_filled {type : TensorType} (h : T type) (count : Nat) (x : α) :
    Ensures (filled type count x) P := by
  rw [filled_eq]
  exact kept.ensures_ofElements h _

theorem full {type : TensorType} (h : T type) (x : α) : P (Tensor.full type x) :=
  (kept.ensures_filled h type.numElements x).of_eq_ok (if_pos rfl)

theorem ensures_add {t : Tensor α} (h : T t.type) (u : Tensor α) : Ensures (t.add u) P :=
  ensures_bind fun _ => kept.ensures_ofElements h _

end Tensor.Kept

open Tensor (Kept)

variable {T : TensorType → Prop} {P : Tensor α → Prop}

namespace Attention.Problem

theorem ensures_forward (kept : Kept T P) (args : Operands (Tensor α)) :
    Ensures (forward args) P := by
  unfold forward
  refine ensures_bind fun _ => ensures_bind fun _ => ensures_bind fun _ => ensures_bind fun _ => ?_
  refine ensures_bind fun _ => ensures_bind fun _ => ?_
  exact (kept.ensures_withLastDim _ _).bind fun type _ htype => kept.ensures_ofElements htype _

theorem ensures_output (kept : Kept T P) (args : Operands (Tensor α)) :
    Ensures (output args) P := by
  unfold output
  refine ensures_bind fun p => ensures_bind fun _ => ?_
  split
  · refine ensures_bind fun _ => (kept.ensures_withLastDim _ _).bind fun type _ htype => ?_
    exact kept.ensures_filled htype _ _
  · exact ensures_forward kept args

variable {args : Operands (Tensor α)}

theorem ensures_backward (kept : Kept T P) (h : ∀ t, some t ∈ args.tensors → T t.type) :
    Ensures (backward args) fun ts => ∀ t ∈ ts, P t := by
  unfold backward
  refine ensures_bind fun _ => ensures_bind fun _ => ensures_bind fun _ => ensures_bind fun _ => ?_
  refine (Operands.ensures_tensor h 1).bind fun query _ hquery => ?_
  refine (Operands.ensures_tensor h 2).bind fun key _ hkey => ?_
  refine (Operands.ensures_tensor h 3).bind fun value _ hvalue => ?_
  refine ensures_bind fun _ => ensures_bind fun _ => ensures_bind fun _ => ensures_bind fun _ => ?_
  refine (kept.ensures_ofElements hquery _).bind fun a _ ha => ?_
  refine (kept.ensures_ofElements hkey _).bind fun b _ hb => ?_
  exact (kept.ensures_ofElements hvalue _).bind fun c _ hc => forall_mem_three ha hb hc

theorem ensures_operandGradients (kept : Kept T P) (h : ∀ t, some t ∈ args.tensors → T t.type) :
    Ensures (operandGradients args) fun ts => ∀ t ∈ ts, P t := by
  unfold operandGradients
  refine ensures_bind fun p => ensures_bind fun _ => ?_
  split
  · refine (Operands.ensures_tensor h 1).bind fun query _ hquery => ?_
    refine (kept.ensures_filled hquery _ _).bind fun a _ ha => ?_
    refine (Operands.ensures_tensor h 2).bind fun key _ hkey => ?_
    refine (kept.ensures_filled hkey _ _).bind fun b _ hb => ?_
    refine (Operands.ensures_tensor h 3).bind fun value _ hvalue => ?_
    exact (kept.ensures_filled hvalue _ _).bind fun c _ hc => forall_mem_three ha hb hc
  · exact ensures_backward kept h

end Attention.Problem

namespace Flash

theorem ensures_forward (kept : Kept T P) (blockSize : Nat) (q k v : Tensor α) (scale : α)
    (causal : Bool) : Ensures (forward blockSize q k v scale causal) fun r =>
      ∀ t ∈ [r.primary, r.auxiliary], P t := by
  unfold forward
  refine ensures_bind fun _ => ensures_bind fun _ => ensures_bind fun _ => ensures_bind fun _ => ?_
  refine ensures_bind fun _ => (kept.ensures_withLastDim _ _).bind fun type _ htype => ?_
  refine ends_bind.2 (ensures_of_forall fun shape hshape => ?_)
  have hlse := kept.leading q.type.device (orPanic_eq_ok_iff.1 hshape)
  refine (kept.ensures_ofElements htype _).bind fun primary _ hprimary => ?_
  refine (kept.ensures_ofElements hlse _).bind fun auxiliary _ hauxiliary => ?_
  exact List.forall_mem_cons.2 ⟨hprimary, List.forall_mem_singleton.2 hauxiliary⟩

theorem ensures_paddedTensor (kept : Kept T P) (operand : Tensor α) (width : Nat)
    (rows : List (List α)) : Ensures (paddedTensor operand width rows) P :=
  (kept.ensures_withLastDim _ _).bind fun _ _ htype => kept.ensures_ofElements htype _

theorem ensures_backward (kept : Kept T P) (alignment : Nat) (x : FlashBackwardInput α) (scale : α)
    (causal : Bool) : Ensures (backward alignment x scale causal) fun g =>
      ∀ t ∈ [g.dq, g.dk, g.dv], P t := by
  unfold backward
  refine ensures_bind fun _ => ensures_bind fun _ => ensures_bind fun _ => ensures_bind fun _ => ?_
  refine ensures_bind fun _ => ensures_bind fun _ => ensures_bind fun _ => ensures_bind fun _ => ?_
  refine (ensures_paddedTensor kept _ _ _).bind fun dq _ hdq => ?_
  refine (ensures_paddedTensor kept _ _ _).bind fun dk _ hdk => ?_
  exact (ensures_paddedTensor kept _ _ _).bind fun dv _ hdv => forall_mem_three hdq hdk hdv

/-- A gradient is cut down to a range of it, if it is at all. -/
theorem ensures_unpad (kept : Kept T P) {gradient : Tensor α} (h : P gradient)
    (operand : Tensor α) : Ensures (unpad gradient operand) P := by
  unfold unpad
  refine ensures_bind fun width => ensures_bind fun _ => ?_
  split
  · exact h
  · refine (ensures_of_forall fun u hu => kept.narrow h hu).bind fun u _ hu => ?_
    exact kept.contiguous hu

variable (config : FlashConfig) (blockSize : Nat) (probe : Bool)

theorem ensures_reference_forward (kept : Kept T P) (q k v : Tensor α) (scale : α)
    (causal : Bool) : Ensures ((reference config blockSize probe).forward q k v scale causal)
      fun r => ∀ t ∈ [r.primary, r.auxiliary], P t :=
  ensures_bind fun _ => ensures_bind fun _ => ensures_forward kept _ q k v scale causal

theorem ensures_reference_backward (kept : Kept T P) (x : FlashBackwardInput α) (scale : α)
    (causal : Bool) : Ensures ((reference config blockSize probe).backward x scale causal)
      fun g => ∀ t ∈ [g.dq, g.dk, g.dv], P t :=
  ensures_bind fun _ => ensures_bind fun _ => ensures_backward kept _ x scale causal

theorem ensures_computeForward (kept : Kept T P) (available : Bool)
    (args : Operands (Tensor α)) :
    Ensures (computeForward (reference config blockSize probe) available args) fun ts =>
      ∀ t ∈ ts, P t := by
  unfold computeForward
  refine ensures_bind fun _ => ensures_bind fun _ => ensures_bind fun _ => ensures_bind fun _ => ?_
  refine ensures_bind fun _ => ensures_bind fun _ => ensures_bind fun _ => ?_
  exact (ensures_reference_forward config blockSize probe kept _ _ _ _ _).bind fun r _ hr => hr

theorem ensures_computeBackward (kept : Kept T P) (available : Bool)
    (args : Operands (Tensor α)) :
    Ensures (computeBackward (reference config blockSize probe) available args) fun ts =>
      ∀ t ∈ ts, P t := by
  unfold computeBackward
  refine ensures_bind fun _ => ensures_bind fun _ => ensures_bind fun _ => ensures_bind fun _ => ?_
  refine ensures_bind fun _ => ensures_bind fun _ => ensures_bind fun _ => ensures_bind fun _ => ?_
  refine ensures_bind fun _ => ensures_bind fun _ => ?_
  refine (ensures_reference_backward config blockSize probe kept _ _ _).bind fun g _ hg => ?_
  refine (ensures_unpad kept (hg g.dq (by simp)) _).bind fun a _ ha => ?_
  refine (ensures_unpad kept (hg g.dk (by simp)) _).bind fun b _ hb => ?_
  exact (ensures_unpad kept (hg g.dv (by simp)) _).bind fun c _ hc => forall_mem_three ha hb hc

end Flash

namespace Builtin

variable {config : FlashConfig} {blockSize : Nat} {probe : Bool} {b : Builtin α}

/-- The outputs of built-in operators have what is kept, if their operands are of such types. -/
theorem ensures_compute (kept : Kept T P) (hb : b ∈ builtins config blockSize probe)
    {args : Operands (Tensor α)} (h : ∀ t, some t ∈ args.tensors → T t.type) :
    Ensures (b.operator.compute args) fun ts => ∀ t ∈ ts, P t := by
  have hsingle : ∀ {x : Except Failure (Tensor α)}, Ensures x P →
      Ensures (do return [← x]) fun ts => ∀ t ∈ ts, P t := fun hx =>
    hx.bind fun t _ ht => List.forall_mem_singleton.2 ht
  have hoperand := Operands.ensures_tensor h 0
  simp only [builtins, List.mem_cons, List.not_mem_nil, or_false] at hb
  rcases hb with rfl | rfl | rfl | rfl | rfl | rfl
  · exact hoperand.bind fun t _ ht => ensures_bind fun u => hsingle (kept.ensures_add ht u)
  · exact hoperand.bind fun t _ ht => List.forall_mem_singleton.2 (kept.full ht Scalar.zero)
  · exact hsingle (Attention.Problem.ensures_output kept args)
  · exact Attention.Problem.ensures_operandGradients kept h
  · exact Flash.ensures_computeForward config blockSize probe kept true args
  · exact Flash.ensures_computeBackward config blockSize probe kept true args

theorem ensures_execute (kept : Kept T P) (hb : b ∈ builtins config blockSize probe)
    {operands : List (Option (Tensor α))} (h : ∀ t, some t ∈ operands → T t.type)
    (attrs : Attrs) : Ensures (b.operator.execute operands attrs) fun ts => ∀ t ∈ ts, P t := by
  refine ensures_bind fun bound => ensures_of_forall fun ts hts => ?_
  refine (ensures_compute kept hb fun t ht => ?_).of_eq_ok (withContext_eq_ok_iff.1 hts)
  obtain ⟨x, hx, hxt⟩ := List.mem_map.1 ht
  obtain ⟨u, rfl, rfl⟩ := Option.map_eq_some_iff.1 hxt
  rw [Tensor.type_contiguous]
  exact h u hx

end Builtin

end TraceSubstitution
