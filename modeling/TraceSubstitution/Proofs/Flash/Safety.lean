import TraceSubstitution.Proofs.Flash.Programs
import TraceSubstitution.Proofs.Flash.Supplied
import TraceSubstitution.Proofs.Replacement.History
import TraceSubstitution.Proofs.Trace.Values

/-!
# The fused executor breaks no program

With the fused executor registered, programs of additions and attention are
always replaced, in either mode and after any history: `Flash.answer_replaces`.
The new programs call the fused operators only where the kernel is available, and
so they never end because it is missing.
-/

namespace TraceSubstitution

variable {α : Type}

/-- The operator never ends because a fused kernel is missing. -/
structure Operator.IsSupplied (o : Operator α) : Prop where
  outputTypes : ∀ args, Supplied (o.outputTypes args)
  compute : ∀ args, Supplied (o.compute args)

namespace Signature

variable {τ : Type} (s : Signature) (op : String) (attrs : Attrs)

@[simp] theorem supplied_checkOperands (operands : List (Option τ)) :
    Supplied (s.checkOperands op operands) := by
  unfold checkOperands
  split
  · exact supplied_ofCause _
  · split <;> simp

@[simp] theorem supplied_bindAttr (p : AttrParam) : Supplied (bindAttr op attrs p) := by
  unfold bindAttr
  split
  · split <;> simp
  · exact supplied_orError _ _

@[simp] theorem supplied_bindAttrs : Supplied (s.bindAttrs op attrs) := by
  unfold bindAttrs
  split <;> simp

end Signature

namespace Operator.IsSupplied

variable {o : Operator α}

theorem infer (h : o.IsSupplied) (operands : List (Option TensorType)) (attrs : Attrs) :
    Supplied (o.infer operands attrs) := by
  simp [Operator.infer, Operator.bind, inferBound, h.outputTypes]

theorem execute (h : o.IsSupplied) (operands : List (Option (Tensor α))) (attrs : Attrs) :
    Supplied (o.execute operands attrs) := by
  simp [Operator.execute, Operator.bind, h.compute]

theorem executeVerified (h : o.IsSupplied) (operands : List (Option (Tensor α))) (attrs : Attrs) :
    Supplied (o.executeVerified operands attrs) := by
  have hcheck : ∀ declared produced, Supplied (o.checkOutputs declared produced) := by
    intro declared produced
    unfold checkOutputs
    split
    · exact supplied_ofCause _
    · split <;> simp
  simp [Operator.executeVerified, h.execute, h.infer, hcheck]

end Operator.IsSupplied

namespace Trace

/-- A program whose operators are not missing a kernel never ends because one is missing. -/
theorem supplied_execute (t : Trace α) (h : ∀ n ∈ t.nodes, n.op.operator.IsSupplied)
    (tensors : List (Tensor α)) (verify : Bool) : Supplied (t.execute tensors verify) := by
  have hvalueOf : ∀ (values : SymbolMap (Tensor α)) id, Supplied (operandOf values id) := by
    intro values id
    cases id with
    | none => exact supplied_ok none
    | some id => simp [operandOf, valueOf]
  have hinputs : Supplied (t.bindInputs tensors) := by simp [bindInputs]
  have houtputs : ∀ values, Supplied (t.outputValues values) := by simp [outputValues]
  have hnode : ∀ n ∈ t.nodes, ∀ values, Supplied (evalNode verify values n) := by
    intro n hn values
    have hexecute := (h n hn).execute
    have hverified := (h n hn).executeVerified
    cases verify <;> simp [evalNode, computeNode, hvalueOf, hexecute, hverified]
  have hnodes : ∀ nodes : List (Node α), (∀ n ∈ nodes, n ∈ t.nodes) → ∀ values,
      Supplied (evalNodes verify nodes values) := by
    intro nodes
    induction nodes with
    | nil => exact fun _ values => supplied_ok values
    | cons n nodes ih =>
      intro hmem values
      obtain ⟨hn, hrest⟩ := List.forall_mem_cons.1 hmem
      rw [evalNodes_cons]
      exact supplied_bind.2 ⟨hnode n hn values, fun values' _ => ih hrest values'⟩
  rw [execute_eq]
  exact supplied_bind.2 ⟨hinputs, fun values _ =>
    supplied_bind.2 ⟨hnodes t.nodes (fun _ hn => hn) values, fun values' _ => houtputs values'⟩⟩

end Trace

variable [Scalar α]

theorem Core.isSupplied_of_mem {o : Operator α} (h : o ∈ (Core.operators : List (Operator α))) :
    o.IsSupplied := by
  simp only [operators, List.mem_cons, List.not_mem_nil, or_false] at h
  rcases h with rfl | rfl | rfl | rfl
  · exact ⟨by simp [add, sumType], by simp [add]⟩
  · exact ⟨by simp [zerosLike], by simp [zerosLike]⟩
  · exact ⟨by simp [Attention.operator], by simp [Attention.operator]⟩
  · exact ⟨by simp [Attention.backwardOperator], by simp [Attention.backwardOperator]⟩

namespace Flash

theorem isSupplied_forwardOperator {kernel : FlashKernel α} (h : SuppliedKernel kernel) :
    (forwardOperator kernel true).IsSupplied :=
  ⟨by simp [forwardOperator], supplied_computeForward h⟩

theorem isSupplied_backwardOperator {kernel : FlashKernel α} (h : SuppliedKernel kernel) :
    (backwardOperator kernel true).IsSupplied :=
  ⟨by simp [backwardOperator], supplied_computeBackward h⟩

theorem Replaces.supplied {kernel : FlashKernel α} (hkernel : SuppliedKernel kernel)
    {available gradient : Bool} {source : Trace α} {turns : List (Turn α)}
    {backward : List (Node α)} {x : Replaced α}
    (h : Replaces (registeredOperators kernel available) available gradient source turns backward x)
    (tensors : List (Tensor α)) (verify : Bool) : Supplied (x.trace.execute tensors verify) := by
  refine x.trace.supplied_execute (fun n hn => ?_) tensors verify
  rcases h.kernels n hn with hcore | ⟨rfl, hop | hop⟩
  · exact Core.isSupplied_of_mem hcore
  · rw [hop]
    exact isSupplied_forwardOperator hkernel
  · rw [hop]
    exact isSupplied_backwardOperator hkernel

/-- Registering the fused executor succeeds for every configuration of the rule and of the reference
kernel. Under any overrides and options, and after any history of programs of additions and attention,
such a program is then replaced in either mode: there is a new program that consists of what
`Replaces` says, and it never ends because the kernel is missing. -/
theorem answer_replaces (config kernelConfig : FlashConfig) (blockSize : Nat)
    (probe available : Bool) (journal : Journal) (overrides : Overrides) (options : ReplacerOptions)
    (history : List (Request α)) (q : Request α)
    (hhistory : ∀ q' ∈ history, ∀ n ∈ q'.source.nodes, Replaceable n)
    (hrecorded : q.source.Recorded) (hops : ∀ n ∈ q.source.nodes, Replaceable n) :
    ∃ executor s x turns backward,
      (register (reference kernelConfig blockSize probe) config available).apply
          ⟨.initial, journal⟩ = (.ok executor, s) ∧
      (((Replacer.answer ⟨{ s.state with overrides }, options⟩ q).apply
          (Replacer.after ⟨{ s.state with overrides }, options⟩ history)).1 = .ok x ∧
        Replaces executor.operators available q.gradient q.source turns backward x ∧
        ∀ tensors verify kernel,
          x.trace.execute tensors verify ≠ .error (.panic (.kernelUnavailable kernel))) := by
  obtain ⟨journal', hregister⟩ := apply_register (reference kernelConfig blockSize probe : FlashKernel α)
    config available journal
  let r := replacer (reference kernelConfig blockSize probe : FlashKernel α) config available overrides
    options
  have hstart : r.start.state.Right r sources := Decisions.right_empty _
  have hkeys : r.start.state.keys ⊆ [] := List.Subset.refl []
  have hright : (r.after history).state.Right r sources :=
    (Replacer.decides_from (offers_replacer _ _ _ _ _).typeDirected injOn_sources
      (fun q' hq' n hn => (hhistory q' hq' n hn).mem_sources) hstart hkeys).2
  obtain ⟨x, turns, backward, hx, hreplaces⟩ := exists_answer hright q hrecorded hops
  exact ⟨_, _, x, turns, backward, hregister, hx, hreplaces,
    hreplaces.supplied (suppliedKernel_reference ..)⟩

/-- The type of queries, keys and values that the fused kernel reads. -/
def fusibleType : TensorType := ⟨⟨[1, 1, 2, 64]⟩, .f16, ⟨.cuda, 0⟩⟩

/-- The static arguments of a call of attention under a causal mask. -/
def causalAttrs : Attrs := AttentionOptions.attrs ⟨0, true, none, 0⟩

/-- The program that calls attention once, on operands that the fused kernel reads. -/
def fusible : Trace Float32 where
  id := ⟨0⟩
  symbols := List.replicate 4 fusibleType
  inputs := [⟨0⟩, ⟨1⟩, ⟨2⟩]
  nodes := [⟨.highLevel Attention.operator, [some ⟨0⟩, some ⟨1⟩, some ⟨2⟩, none], causalAttrs, [⟨3⟩]⟩]
  outputs := [⟨3⟩]

theorem recorded_fusible : fusible.Recorded := by
  have h0 : Tracer.Recorded ((Tracer.empty ⟨0⟩ : Tracer Float32).input fusibleType).2 :=
    .input _ (.empty ⟨0⟩)
  have h1 := h0.input fusibleType
  have h2 := h1.input fusibleType
  have hcall : (Tracer.call (.highLevel Attention.operator)
      [some ⟨⟨0⟩, ⟨0⟩, fusibleType⟩, some ⟨⟨0⟩, ⟨1⟩, fusibleType⟩, some ⟨⟨0⟩, ⟨2⟩, fusibleType⟩, none]
        causalAttrs).apply ((((Tracer.empty ⟨0⟩ : Tracer Float32).input fusibleType).2.input
          fusibleType).2.input fusibleType).2 =
      (.ok [⟨⟨0⟩, ⟨3⟩, fusibleType⟩],
        ⟨⟨0⟩, fusible.symbols, fusible.inputs, fusible.nodes, none⟩) := rfl
  exact ⟨_, [⟨⟨0⟩, ⟨3⟩, fusibleType⟩], h2.call hcall, rfl⟩

theorem replaceable_fusible : ∀ n ∈ fusible.nodes, Replaceable n := by
  intro n hn
  rw [List.mem_singleton.1 hn]
  exact .inr rfl

/-- The replacer with the fused executor that asks for a joint program of one call of attention. -/
def fusing : Replacer Float32 := ⟨registered (reference .standard 2 true) .standard true, .standard⟩

theorem names_fusible : (((fusing.answer ⟨true, ⟨1⟩, fusible⟩).apply fusing.start).1.map fun x =>
    x.trace.nodes.map (·.op.operator.name)).toOption = some ["flash_fwd", "flash_bwd"] := by
  decide +kernel

/-- A call of attention becomes the two calls of the fused operators. -/
theorem answer_replaces_fusible : fusible.Recorded ∧ (∀ n ∈ fusible.nodes, Replaceable n) ∧
    ∃ executor s x turns backward,
      (register (reference .standard 2 true) .standard true).apply ⟨.initial, []⟩ =
          (.ok executor, s) ∧
      (((Replacer.answer ⟨{ s.state with overrides := .empty }, .standard⟩ ⟨true, ⟨1⟩, fusible⟩).apply
          (Replacer.after ⟨{ s.state with overrides := .empty }, .standard⟩ [])).1 = .ok x ∧
        Replaces executor.operators true true fusible turns backward x ∧
        ∀ tensors verify kernel,
          x.trace.execute tensors verify ≠ .error (.panic (.kernelUnavailable kernel))) ∧
      x.trace.nodes.map (·.op.operator.name) = ["flash_fwd", "flash_bwd"] := by
  refine ⟨recorded_fusible, replaceable_fusible, ?_⟩
  obtain ⟨executor, s, x, turns, backward, hregister, hx, hrest⟩ := answer_replaces .standard .standard
    2 true true [] .empty .standard [] ⟨true, ⟨1⟩, fusible⟩ (fun _ hq => absurd hq List.not_mem_nil)
    recorded_fusible replaceable_fusible
  refine ⟨executor, s, x, turns, backward, hregister, ⟨hx, hrest⟩, ?_⟩
  obtain ⟨journal, hregistered⟩ := apply_register (reference .standard 2 true : FlashKernel Float32)
    .standard true []
  obtain rfl : _ = s := (Prod.mk.inj (hregistered.symm.trans hregister)).2
  have hanswer : ((fusing.answer ⟨true, ⟨1⟩, fusible⟩).apply fusing.start).1 = .ok x := hx
  have hnames := names_fusible
  rw [hanswer] at hnames
  exact Option.some.inj hnames

end Flash

end TraceSubstitution
