import TraceSubstitution.Proofs.Attention.Calls
import TraceSubstitution.Proofs.Builtin
import TraceSubstitution.Proofs.Flash.Typing
import TraceSubstitution.Proofs.Trace.Closed

/-!
# Typed programs run

A call whose operands have the types that were declared for them is computed by a
built-in operator, if there is room for its buffers and outputs, and its outputs have
the declared types again. So a closed program of such calls runs to its end on tensors
of the declared types (`Trace.exists_execute`): only memory can run out.
-/

namespace TraceSubstitution

variable {α : Type}

/-- All values have the types of their symbols. -/
def SymbolMap.Fits (symbols : List TensorType) (values : SymbolMap (Tensor α)) : Prop :=
  ∀ id x, values.get? id = some x → symbols[id.index]? = some x.type

/-- There is room for the buffers and the outputs of all calls of the given operators. -/
def Trace.Affordable (t : Trace α) (ops : List (Builtin α)) : Prop :=
  ∀ n ∈ t.nodes, ∀ b ∈ ops, n.op.operator = b.operator → ∀ types outputs,
    n.Typed t.symbols types outputs → Available (b.scratch types) outputs

/-- All calls are typed, and call one of the given operators. -/
def Trace.Calls (t : Trace α) (ops : List (Builtin α)) : Prop :=
  ∀ n ∈ t.nodes, (∃ types outputs, n.Typed t.symbols types outputs) ∧
    ∃ b ∈ ops, n.op.operator = b.operator

namespace SymbolMap.Fits

variable {symbols : List TensorType} {values : SymbolMap (Tensor α)}

/-- Outputs of the declared types get the values. -/
theorem insertAll (h : values.Fits symbols) {ids : List SymbolId} {tensors : List (Tensor α)}
    (htypes : ids.map (fun id => symbols[id.index]?) = tensors.map (some ·.type)) :
    (values.insertAll ids tensors).Fits symbols := by
  rw [← List.forall₂_eq_eq_eq, List.forall₂_map_left_iff, List.forall₂_map_right_iff] at htypes
  exact fits_insertAll htypes h

/-- Operands have the types that are declared for them. -/
theorem operandTypes (h : values.Fits symbols) {n : Node α} {types : List (Option TensorType)}
    {outputs : List TensorType} (hn : n.Typed symbols types outputs)
    {xs : List (Option (Tensor α))} (hxs : n.inputs.map (·.map values.get?) = xs.map (·.map some)) :
    xs.map (·.map Tensor.type) = types :=
  reads_injective ((map_of_reads h hxs).symm.trans hn.inputTypes)

end SymbolMap.Fits

namespace Node

variable {symbols : List TensorType} {n : Node α} {types : List (Option TensorType)}
  {outputs : List TensorType}

/-- What was inferred for a typed call when it was recorded is inferred for it again. -/
theorem Typed.infer (h : n.Typed symbols types outputs)
    (hproper : n.op.operator.signature.Proper) :
    n.op.operator.infer types n.attrs = .ok outputs := by
  have hinferred := h.inferred
  unfold NodeOp.inferTypes at hinferred
  cases hop : n.op with
  | highLevel o =>
    rw [hop] at hinferred
    exact hinferred
  | kernel o =>
    have hbind := h.bind_self hproper
    rw [hop] at hinferred hbind
    exact Operator.infer_eq_ok_iff.2 ⟨n.attrs, hbind, hinferred⟩

end Node

namespace Trace

variable {symbols : List TensorType} {known : List SymbolId} {n : Node α} {nodes : List (Node α)}
  {values : SymbolMap (Tensor α)} {b : Builtin α} {ops : List (Builtin α)}

/-- A typed call of an operator that fulfils its contract can be computed, if there is room. -/
theorem exists_computeNode (hfulfils : b.operator.Fulfils b.scratch)
    (hproper : b.operator.signature.Proper) (hop : n.op.operator = b.operator)
    {types : List (Option TensorType)} {outputs : List TensorType}
    (hn : n.Typed symbols types outputs) (havailable : Available (b.scratch types) outputs)
    {xs : List (Option (Tensor α))} (hxs : xs.map (·.map Tensor.type) = types) (verify : Bool) :
    ∃ results, computeNode verify n xs = .ok results ∧ results.map Tensor.type = outputs := by
  have hinfer := hn.infer (hop ▸ hproper)
  rw [hop, ← hxs] at hinfer
  obtain ⟨results, hexecute, htypes, hverified⟩ :=
    hfulfils.executeVerified_eq_ok hinfer (hxs ▸ havailable)
  have hlength : results.length = n.outputs.length := by
    have hcount := congrArg List.length hn.outputTypes
    rw [List.length_map, List.length_map, ← htypes, List.length_map] at hcount
    exact hcount.symm
  refine ⟨results, ?_, htypes⟩
  unfold computeNode
  rw [hop]
  cases verify with
  | true =>
    simp only [↓reduceIte, hverified, ok_bind, hlength]
    rfl
  | false =>
    simp only [Bool.false_eq_true, ↓reduceIte, hexecute, ok_bind, hlength]
    rfl

/-- One call: its outputs get values of the declared types. -/
theorem exists_evalNode (hfulfils : b.operator.Fulfils b.scratch)
    (hproper : b.operator.signature.Proper) (hop : n.op.operator = b.operator)
    {types : List (Option TensorType)} {outputs : List TensorType}
    (hn : n.Typed symbols types outputs) (havailable : Available (b.scratch types) outputs)
    (hreads : ∀ id, some id ∈ n.inputs → id ∈ known) (hcovers : values.Covers known)
    (hfits : values.Fits symbols) (verify : Bool) :
    ∃ more, evalNode verify values n = .ok more ∧ more.Covers (known ++ n.outputs) ∧
      more.Fits symbols := by
  obtain ⟨xs, hxs⟩ := hcovers.exists_operands hreads
  obtain ⟨results, hrun, htypes⟩ := exists_computeNode hfulfils hproper hop hn havailable
    (hfits.operandTypes hn hxs) verify
  refine ⟨_, evalNode_eq_ok_iff.2 ⟨xs, results, hxs, hrun, rfl⟩,
    hcovers.insertAll (length_of_computeNode hrun), hfits.insertAll ?_⟩
  rw [hn.outputTypes, ← htypes, List.map_map]
  rfl

/-- Calls in order: their outputs get values of the declared types. -/
theorem exists_evalNodes
    (hops : ∀ b ∈ ops, b.operator.Fulfils b.scratch ∧ b.operator.signature.Proper)
    (hcalls : ∀ n ∈ nodes, (∃ types outputs, n.Typed symbols types outputs) ∧
      ∃ b ∈ ops, n.op.operator = b.operator)
    (hroom : ∀ n ∈ nodes, ∀ b ∈ ops, n.op.operator = b.operator → ∀ types outputs,
      n.Typed symbols types outputs → Available (b.scratch types) outputs)
    (hclosed : Node.Closed known nodes) (hcovers : values.Covers known)
    (hfits : values.Fits symbols) (verify : Bool) :
    ∃ more, evalNodes verify nodes values = .ok more ∧
      more.Covers (known ++ nodes.flatMap (·.outputs)) ∧ more.Fits symbols := by
  induction nodes generalizing known values with
  | nil => exact ⟨values, rfl, (List.append_nil known).symm ▸ hcovers, hfits⟩
  | cons n nodes ih =>
    obtain ⟨⟨⟨types, outputs, hn⟩, b, hb, hop⟩, hcalls⟩ := List.forall_mem_cons.1 hcalls
    obtain ⟨hfirst, hroom⟩ := List.forall_mem_cons.1 hroom
    obtain ⟨hreads, hclosed⟩ := Node.closed_cons.1 hclosed
    obtain ⟨values₁, hone, hcovers₁, hfits₁⟩ := exists_evalNode (hops b hb).1 (hops b hb).2 hop hn
      (hfirst b hb hop types outputs hn) hreads hcovers hfits verify
    obtain ⟨more, hrest, hmore⟩ := ih hcalls hroom hclosed hcovers₁ hfits₁
    rw [List.flatMap_cons, ← List.append_assoc]
    exact ⟨more, by rw [evalNodes_cons, hone, ok_bind, hrest], hmore⟩

/-- A closed program of typed calls of operators that fulfil their contracts runs on all tensors of
the declared types, if there is room for its buffers and outputs. -/
theorem exists_execute {t : Trace α} (hclosed : t.Closed)
    (hops : ∀ b ∈ ops, b.operator.Fulfils b.scratch ∧ b.operator.signature.Proper)
    (hcalls : t.Calls ops) (hroom : t.Affordable ops) {tensors : List (Tensor α)}
    (htensors : t.inputs.map t.typeOf? = tensors.map (some ·.type)) (verify : Bool) :
    ∃ outs, t.execute tensors verify = .ok outs ∧
      t.outputs.map t.typeOf? = outs.map (some ·.type) := by
  have hlength : tensors.length = t.inputs.length := by
    simpa using (congrArg List.length htensors).symm
  have hnone : (SymbolMap.empty : SymbolMap (Tensor α)).Covers [] := nofun
  have hempty : (SymbolMap.empty : SymbolMap (Tensor α)).Fits t.symbols := nofun
  obtain ⟨values, hrun, hcovers, hfits⟩ := exists_evalNodes hops hcalls hroom hclosed.1
    (hnone.insertAll hlength) (hempty.insertAll htensors) verify
  obtain ⟨outs, houts⟩ := SymbolMap.Covers.exists_map fun id hid => hcovers id (hclosed.2 id hid)
  refine ⟨outs, execute_eq_ok_iff.2 ⟨values, htensors, hrun, outputValues_eq_ok_iff.2 houts⟩, ?_⟩
  have htypes := SymbolMap.map_of_values hfits houts
  rw [List.map_map] at htypes
  exact htypes

end Trace

variable [Scalar α]

namespace Builtin

variable {config : FlashConfig} {blockSize : Nat} {probe : Bool} {b : Builtin α}

theorem proper_of_mem (hb : b ∈ builtins config blockSize probe) :
    b.operator.signature.Proper := by
  simp only [builtins, List.mem_cons, List.not_mem_nil, or_false] at hb
  rcases hb with rfl | rfl | rfl | rfl | rfl | rfl
  · exact Core.proper_signature
  · exact ⟨.tensor _ .empty, List.nodup_nil, fun _ hp => absurd hp List.not_mem_nil⟩
  · exact Attention.proper_signature
  · exact Attention.proper_backwardSignature
  · exact Flash.proper_forwardSignature
  · exact Flash.proper_backwardSignature

end Builtin

end TraceSubstitution
