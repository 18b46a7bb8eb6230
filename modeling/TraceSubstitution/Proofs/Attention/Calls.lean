import TraceSubstitution.Proofs.Attention.Typing
import TraceSubstitution.Proofs.Core
import TraceSubstitution.Proofs.Trace.Calling

/-!
# Calls of addition and attention in programs

The calls of a recorded program have been accepted when they were recorded, so
what their operators demand holds of them: `Node.Typed.of_add` and
`Node.Typed.of_attention`. Calls of these two operators can be recorded again, and
so can calls of the backward operator of attention.
-/

namespace TraceSubstitution

variable {α : Type} [Scalar α]

theorem Core.proper_signature : (Core.add : Operator α).signature.Proper :=
  ⟨.tensor _ (.tensor _ .empty), List.nodup_nil, fun _ hp => absurd hp List.not_mem_nil⟩

namespace Node.Typed

variable {symbols : List TensorType} {n : Node α} {operandTypes : List (Option TensorType)}
  {outputs : List TensorType}

/-- A call of addition has two operands of one type, which is that of its output. -/
theorem of_add (h : n.Typed symbols operandTypes outputs) (hop : n.op = .highLevel Core.add) :
    ∃ type, operandTypes = [some type, some type] ∧ outputs = [type] ∧ n.attrs = .empty := by
  obtain ⟨attrs, hbind⟩ := h.bound
  rw [hop] at hbind
  obtain ⟨hoperands, hattrs⟩ := Operator.bind_eq_ok_iff.1 hbind
  have hempty : Dict.empty = n.attrs := by
    have hfold := (Signature.bindAttrs_eq_ok_iff.1 hattrs).2
    exact Except.ok.inj hfold
  have hinferred := h.inferred
  rw [hop] at hinferred
  obtain ⟨bound, -, hinfer⟩ := Operator.infer_eq_ok_iff.1 hinferred
  obtain ⟨type, hlhs, hrhs, rfl⟩ := Core.inferBound_add_eq_ok_iff.1 hinfer
  have hlength : operandTypes.length = 2 := Signature.length_of_checkOperands hoperands
  obtain ⟨x, y, rfl⟩ := List.length_eq_two.1 hlength
  obtain rfl : x = some type := hlhs
  obtain rfl : y = some type := hrhs
  exact ⟨type, rfl, rfl, hempty.symm⟩

/-- A call of attention has operands that attention accepts, and static arguments that can be
read. -/
theorem of_attention (h : n.Typed symbols operandTypes outputs)
    (hop : n.op = .highLevel Attention.operator) : ∃ query key value mask output,
      operandTypes = [some query, some key, some value, mask] ∧ outputs = [output] ∧
        Attention.Accepts query key value mask output ∧
        Attention.outputType ⟨(Attention.operator : Operator α).qualifiedName,
          [some query, some key, some value, mask], n.attrs⟩ = .ok output ∧
        ∃ dropout causal scale seed, Attention.Settled n.attrs dropout causal scale seed := by
  obtain ⟨attrs, hbind⟩ := h.bound
  rw [hop] at hbind
  obtain ⟨hoperands, hattrs⟩ := Operator.bind_eq_ok_iff.1 hbind
  have hself := Signature.bindAttrs_self Attention.proper_signature hattrs
  have hinferred := h.inferred
  rw [hop] at hinferred
  obtain ⟨bound, hbound, hinfer⟩ := Operator.infer_eq_ok_iff.1 hinferred
  obtain rfl : n.attrs = bound :=
    Except.ok.inj (hself.symm.trans (Operator.bind_eq_ok_iff.1 hbound).2)
  unfold Operator.inferBound at hinfer
  rw [withContext_eq_ok_iff] at hinfer
  obtain ⟨output, houtput, hpure⟩ := bind_eq_ok_iff.1 hinfer
  obtain rfl : [output] = outputs := Except.ok.inj hpure
  obtain ⟨query, key, value, hquery, hkey, hvalue, haccepts⟩ :=
    Attention.accepts_of_outputType houtput
  have hlength : operandTypes.length = 4 := Signature.length_of_checkOperands hoperands
  obtain ⟨x, y, z, mask, rfl⟩ : ∃ x y z mask, operandTypes = [x, y, z, mask] := by
    match operandTypes, hlength with
    | [x, y, z, mask], _ => exact ⟨x, y, z, mask, rfl⟩
  obtain rfl : x = some query := hquery
  obtain rfl : y = some key := hkey
  obtain rfl : z = some value := hvalue
  exact ⟨query, key, value, mask, output, rfl, rfl, haccepts, houtput,
    Attention.settled_of_bindAttrs hattrs⟩

end Node.Typed

namespace Attention

/-- The backward operator accepts the operands of an accepted call, and binds its static
arguments. -/
theorem acceptsBackward {query key value output : TensorType} {mask : Option TensorType}
    {attrs raw : Attrs} {op : String}
    (h : outputType ⟨op, [some query, some key, some value, mask], attrs⟩ = .ok output)
    (hattrs : signature.bindAttrs op raw = .ok attrs) :
    (backwardOperator : Operator α).bind [some output, some query, some key, some value, mask]
        attrs = .ok attrs ∧
      (backwardOperator : Operator α).inferBound
        [some output, some query, some key, some value, mask] attrs = .ok [query, key, value] := by
  constructor
  · refine Operator.bind_eq_ok_iff.2 ⟨?_, ?_⟩
    · cases mask with
      | none => rfl
      | some m => rfl
    · exact Signature.bindAttrs_of_attrs (s := signature) rfl
        (Signature.bindAttrs_self proper_signature hattrs)
  · unfold Operator.inferBound
    rw [withContext_eq_ok_iff]
    exact gradientTypes_eq_ok h rfl rfl rfl

end Attention

end TraceSubstitution
