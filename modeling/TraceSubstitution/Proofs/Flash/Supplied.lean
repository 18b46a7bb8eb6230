import TraceSubstitution.Flash.Executor
import TraceSubstitution.Proofs.Outcome

/-!
# Operations that need no missing kernel

`Supplied` operations never end because a fused kernel is missing. Whatever is put
together from supplied operations is supplied, so this is true of everything that
is done in the operators of the initial registry and in the reference kernel.
-/

namespace TraceSubstitution

/-- The operation does not end because a fused kernel is missing. -/
def Supplied {β : Type} (x : Except Failure β) : Prop :=
  ∀ kernel, x ≠ .error (.panic (.kernelUnavailable kernel))

section

variable {β γ : Type}

@[simp] theorem supplied_ok (b : β) : Supplied (.ok b) := fun _ h => by cases h

@[simp] theorem supplied_pure (b : β) : Supplied (pure b) := supplied_ok b

@[simp] theorem supplied_ofCause (c : Cause) : Supplied (.error (.ofCause c) : Except Failure β) :=
  fun _ h => by cases h

@[simp] theorem supplied_panic {p : Panic} :
    Supplied (.error (.panic p) : Except Failure β) ↔ ∀ kernel, p ≠ .kernelUnavailable kernel := by
  constructor
  · intro h kernel hp
    exact h kernel (hp ▸ rfl)
  · intro h kernel heq
    exact h kernel (Failure.panic.inj (Except.error.inj heq))

@[simp] theorem supplied_bind {x : Except Failure β} {f : β → Except Failure γ} :
    Supplied (x >>= f) ↔ Supplied x ∧ ∀ b, x = .ok b → Supplied (f b) := by
  cases x with
  | error e =>
    refine ⟨fun h => ⟨fun kernel he => h kernel (congrArg Except.error (Except.error.inj he)),
      fun b hb => nomatch hb⟩, fun h kernel he => ?_⟩
    exact h.1 kernel (congrArg Except.error (Except.error.inj he))
  | ok b => exact ⟨fun h => ⟨supplied_ok b, fun c hc => Except.ok.inj hc ▸ h⟩, fun h => h.2 b rfl⟩

@[simp] theorem supplied_map {x : Except Failure β} {f : β → γ} :
    Supplied (x.map f) ↔ Supplied x := by
  cases x with
  | error e =>
    exact ⟨fun h kernel he => h kernel (congrArg Except.error (Except.error.inj he)),
      fun h kernel he => h kernel (congrArg Except.error (Except.error.inj he))⟩
  | ok b => exact iff_of_true (supplied_ok (f b)) (supplied_ok b)

@[simp] theorem supplied_functorMap {x : Except Failure β} {f : β → γ} :
    Supplied (f <$> x) ↔ Supplied x := supplied_map

@[simp] theorem supplied_mapConst {x : Except Failure β} {c : γ} :
    Supplied (Functor.mapConst c x) ↔ Supplied x := supplied_map

@[simp] theorem supplied_withContext {context : String} {x : Except Failure β} :
    Supplied (withContext context x) ↔ Supplied x := by
  cases x with
  | error e =>
    cases e with
    | error e => exact iff_of_true (fun _ h => nomatch h) fun _ h => nomatch h
    | panic p => exact Iff.rfl
  | ok b => exact Iff.rfl

@[simp] theorem supplied_ensure (condition : Bool) (c : Cause) : Supplied (ensure condition c) := by
  cases condition with
  | false => exact supplied_ofCause c
  | true => exact supplied_ok ()

@[simp] theorem supplied_orError (c : Cause) (x : Option β) : Supplied (orError c x) := by
  cases x with
  | none => exact supplied_ofCause c
  | some b => exact supplied_ok b

@[simp] theorem supplied_orPanic {p : Panic} {x : Option β} :
    Supplied (orPanic p x) ↔ x = none → ∀ kernel, p ≠ .kernelUnavailable kernel := by
  cases x with
  | none => exact supplied_panic.trans ⟨fun h _ => h, fun h => h rfl⟩
  | some b => exact iff_of_true (supplied_ok b) nofun

@[simp] theorem supplied_ite {c : Prop} [Decidable c] {x y : Except Failure β} :
    Supplied (if c then x else y) ↔ (c → Supplied x) ∧ (¬c → Supplied y) := by
  split
  · next h => exact ⟨fun hx => ⟨fun _ => hx, fun hc => absurd h hc⟩, fun hx => hx.1 h⟩
  · next h => exact ⟨fun hy => ⟨fun hc => absurd hc h, fun _ => hy⟩, fun hy => hy.2 h⟩

/-- All failures are permitted but that a fused kernel is missing. -/
theorem supplied_iff_ends {x : Except Failure β} : Supplied x ↔
    Ends (fun e => ∀ kernel, e ≠ .panic (.kernelUnavailable kernel)) x fun _ => True := by
  cases x with
  | error e =>
    exact ⟨fun h kernel he => h kernel (congrArg Except.error he),
      fun h kernel he => h kernel (Except.error.inj he)⟩
  | ok b => exact iff_of_true (supplied_ok b) trivial

@[simp] theorem supplied_mapM {f : β → Except Failure γ} {xs : List β}
    (hf : ∀ b, Supplied (f b)) : Supplied (xs.mapM f) :=
  supplied_iff_ends.2 <| (Ends.mapM fun b _ => supplied_iff_ends.1 (hf b)).mono
    fun _ _ _ => trivial

@[simp] theorem supplied_foldlM {f : γ → β → Except Failure γ} {xs : List β} {c : γ}
    (hf : ∀ c b, Supplied (f c b)) : Supplied (xs.foldlM f c) :=
  supplied_iff_ends.2 <| Ends.foldlM (fun b _ c _ => supplied_iff_ends.1 (hf c b)) trivial

end

@[simp] theorem Operands.supplied_tensor {τ : Type} (args : Operands τ) (i : Nat) :
    Supplied (args.tensor i) := supplied_orError _ _

namespace Attrs

variable (attrs : Attrs) (name : String)

@[simp] theorem supplied_refusal {β : Type} (kind : AttrKind) :
    Supplied (attrs.refusal name kind : Except Failure β) := supplied_ofCause _

@[simp] theorem supplied_bool : Supplied (attrs.bool name) := by
  unfold bool
  split <;> simp

@[simp] theorem supplied_int : Supplied (attrs.int name) := by
  unfold int
  split <;> simp

@[simp] theorem supplied_float : Supplied (attrs.float name) := by
  unfold float
  split <;> simp

@[simp] theorem supplied_optionalFloat : Supplied (attrs.optionalFloat name) := by
  unfold optionalFloat
  split <;> simp

end Attrs

namespace Require

variable (lhsName rhsName : String) (lhs rhs type : TensorType) (n : Nat)

@[simp] theorem supplied_rank : Supplied (rank lhsName type n) := supplied_ensure _ _

@[simp] theorem supplied_sameDType : Supplied (sameDType lhsName lhs rhsName rhs) :=
  supplied_ensure _ _

@[simp] theorem supplied_sameDevice : Supplied (sameDevice lhsName lhs rhsName rhs) :=
  supplied_ensure _ _

@[simp] theorem supplied_sameShape : Supplied (sameShape lhsName lhs rhsName rhs) :=
  supplied_ensure _ _

@[simp] theorem supplied_dim : Supplied (dim type n) := by simp [dim]

@[simp] theorem supplied_sameDim : Supplied (sameDim n lhsName lhs rhsName rhs) := by
  simp [sameDim]

@[simp] theorem supplied_lastDim : Supplied (lastDim type) := by simp [lastDim]

@[simp] theorem supplied_withLastDim : Supplied (withLastDim type n) := by simp [withLastDim]

end Require

namespace Tensor

variable {α : Type}

@[simp] theorem supplied_reserve (size : Nat) : Supplied (reserve size) := by simp [reserve]

@[simp] theorem supplied_slice (data : Array α) (start len : Nat) :
    Supplied (slice data start len) := by simp [slice]

@[simp] theorem supplied_block (t : Tensor α) : Supplied t.block := by simp [block]

@[simp] theorem supplied_rows (t : Tensor α) (width : Nat) : Supplied (t.rows width) := by
  simp [rows]

@[simp] theorem supplied_narrow (t : Tensor α) (axis start len : Nat) :
    Supplied (t.narrow axis start len) := by
  unfold narrow
  split
  · split <;> simp
  · simp

variable [Scalar α]

@[simp] theorem supplied_ofElements (type : TensorType) (xs : Array α) :
    Supplied (ofElements type xs) := by
  unfold ofElements
  split <;> simp

@[simp] theorem supplied_filled (type : TensorType) (count : Nat) (x : α) :
    Supplied (filled type count x) := by simp [filled]

@[simp] theorem supplied_add (t u : Tensor α) : Supplied (t.add u) := by simp [add]

end Tensor

namespace Rows

variable {α : Type} (m : Rows α) (n : Nat)

@[simp] theorem supplied_row : Supplied (m.row n) := by simp [row]

@[simp] theorem supplied_reach : Supplied (m.reach n) := by simp [reach]

end Rows

@[simp] theorem supplied_broadcastStrides (dims target : List Nat) :
    Supplied (broadcastStrides dims target) := by simp [broadcastStrides]

@[simp] theorem supplied_broadcast {α : Type} (data : Array α) (target strides : List Nat) :
    Supplied (broadcast data target strides) := by simp [broadcast]

namespace Attention

@[simp] theorem supplied_softmaxScale (attrs : Attrs) (depth : Nat) :
    Supplied (softmaxScale attrs depth) := by simp [softmaxScale]

@[simp] theorem supplied_scoreDims (query key : TensorType) : Supplied (scoreDims query key) := by
  simp [scoreDims]

@[simp] theorem supplied_maskStrides (query key mask : TensorType) :
    Supplied (maskStrides query key mask) := by simp [maskStrides]

@[simp] theorem supplied_checkMask (query key mask : TensorType) :
    Supplied (checkMask query key mask) := by simp [checkMask, discard]

@[simp] theorem supplied_outputType (args : Operands TensorType) : Supplied (outputType args) := by
  unfold outputType
  cases args.optional 3 with
  | none => simp
  | some mask => simp

@[simp] theorem supplied_gradientTypes (args : Operands TensorType) :
    Supplied (gradientTypes args) := by simp [gradientTypes]

namespace Problem

variable {α : Type} [Scalar α] (p : Problem α) (args : Operands (Tensor α))

@[simp] theorem supplied_ofOperands : Supplied (ofOperands args) := by simp [ofOperands]

omit [Scalar α] in
@[simp] theorem supplied_checkMask : Supplied (checkMask args) := by
  unfold checkMask
  cases args.optional 3 with
  | none => simp
  | some mask => simp [discard]

omit [Scalar α] in
@[simp] theorem supplied_maskValues : Supplied (maskValues args) := by
  unfold maskValues
  cases args.optional 3 with
  | none => simp
  | some mask => simp

@[simp] theorem supplied_score (k : Rows α) (mask : Option (Array α)) (b i : Nat) (query : List α)
    (j : Nat) : Supplied (p.score k mask b i query j) := by
  unfold score
  cases mask with
  | none => simp
  | some mask => simp

@[simp] theorem supplied_probabilityRow (q k : Rows α) (mask : Option (Array α)) (b i : Nat) :
    Supplied (p.probabilityRow q k mask b i) := by simp [probabilityRow]

@[simp] theorem supplied_probabilities : Supplied (p.probabilities args) := by simp [probabilities]

@[simp] theorem supplied_outputRow (v : Rows α) (b : Nat) (weights : List α) :
    Supplied (p.outputRow v b weights) := by simp [outputRow]

@[simp] theorem supplied_forward : Supplied (forward args) := by simp [forward, outputRows]

@[simp] theorem supplied_queryGradient (dOut q v : Rows α) (b i : Nat)
    (probabilities factors : List α) :
    Supplied (p.queryGradient dOut q v b i probabilities factors) := by simp [queryGradient]

@[simp] theorem supplied_gatherKeys (k : Rows α) (b : Nat) (g : QueryGradient α) :
    Supplied (p.gatherKeys k b g) := by simp [gatherKeys]

@[simp] theorem supplied_gradients (dOut q k v : Rows α) (probabilities : List (List (List α)))
    (factors : Option (List (List (List α)))) :
    Supplied (p.gradients dOut q k v probabilities factors) := by
  simp [gradients]

@[simp] theorem supplied_backward : Supplied (backward args) := by simp [backward]

omit [Scalar α] in
@[simp] theorem supplied_checkProbabilities : Supplied (p.checkProbabilities args) := by
  simp [checkProbabilities]

@[simp] theorem supplied_output : Supplied (output args) := by simp [output, checkOutput]

@[simp] theorem supplied_operandGradients : Supplied (operandGradients args) := by
  simp [operandGradients, checkGradients]

end Problem

end Attention

namespace Flash

@[simp] theorem supplied_forwardTypes (args : Operands TensorType) :
    Supplied (forwardTypes args) := by simp [forwardTypes]

@[simp] theorem supplied_backwardTypes (args : Operands TensorType) :
    Supplied (backwardTypes args) := by simp [backwardTypes]

variable {α : Type}

@[simp] theorem supplied_layout (q k v : Tensor α) : Supplied (layout q k v) := by
  unfold layout checkOperand
  split <;> simp

@[simp] theorem supplied_visibleKeys (l : Layout) (k v : Rows α) (head i : Nat) (causal : Bool) :
    Supplied (visibleKeys l k v head i causal) := by simp [visibleKeys]

variable [Scalar α]

@[simp] theorem supplied_attendAll (l : Layout) (blockSize : Nat) (q k v : Rows α) (scale : α)
    (causal : Bool) : Supplied (attendAll l blockSize q k v scale causal) := by simp [attendAll]

@[simp] theorem supplied_forward (blockSize : Nat) (q k v : Tensor α) (scale : α) (causal : Bool) :
    Supplied (forward blockSize q k v scale causal) := by simp [forward]

@[simp] theorem supplied_termsOf (l : Layout) (r : BackwardRows α) (scale : α) (causal : Bool)
    (head i : Nat) : Supplied (termsOf l r scale causal head i) := by simp [termsOf]

@[simp] theorem supplied_headGradients (l : Layout) (r : BackwardRows α) (scale : α) (causal : Bool)
    (head : Nat) : Supplied (headGradients l r scale causal head) := by
  simp [headGradients]

@[simp] theorem supplied_gradients (l : Layout) (r : BackwardRows α) (scale : α) (causal : Bool)
    (width valueWidth : Nat) : Supplied (gradients l r scale causal width valueWidth) := by
  simp [gradients]

@[simp] theorem supplied_paddedTensor (operand : Tensor α) (width : Nat) (rows : List (List α)) :
    Supplied (paddedTensor operand width rows) := by simp [paddedTensor]

omit [Scalar α] in
@[simp] theorem supplied_backwardLayout (x : FlashBackwardInput α) :
    Supplied (backwardLayout x) := by simp [backwardLayout]

@[simp] theorem supplied_backward (alignment : Nat) (x : FlashBackwardInput α) (scale : α)
    (causal : Bool) : Supplied (backward alignment x scale causal) := by simp [backward]

omit [Scalar α] in
@[simp] theorem supplied_unpad (gradient operand : Tensor α) :
    Supplied (unpad gradient operand) := by
  simp [unpad]

/-- The kernel is not missing what it needs to run. -/
structure SuppliedKernel (kernel : FlashKernel α) : Prop where
  forward : ∀ q k v scale causal, Supplied (kernel.forward q k v scale causal)
  backward : ∀ input scale causal, Supplied (kernel.backward input scale causal)

theorem suppliedKernel_reference (config : FlashConfig) (blockSize : Nat) (probe : Bool) :
    SuppliedKernel (reference config blockSize probe : FlashKernel α) where
  forward q k v scale causal := by simp [reference, Layout.reserveForward]
  backward input scale causal := by simp [reference, Layout.reserveBackward]

theorem supplied_computeForward {kernel : FlashKernel α} (h : SuppliedKernel kernel)
    (args : Operands (Tensor α)) : Supplied (computeForward kernel true args) := by
  simp [computeForward, requireAvailable, h.forward]

theorem supplied_computeBackward {kernel : FlashKernel α} (h : SuppliedKernel kernel)
    (args : Operands (Tensor α)) : Supplied (computeBackward kernel true args) := by
  simp [computeBackward, requireAvailable, h.backward]

end Flash

end TraceSubstitution
