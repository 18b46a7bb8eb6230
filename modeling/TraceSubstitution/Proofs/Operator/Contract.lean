import TraceSubstitution.Proofs.Operator.Binding
import TraceSubstitution.Proofs.Operator.Execution
import TraceSubstitution.Proofs.Operator.Inference

/-!
# Type inference as a contract

An operator fulfils its contract if type inference never panics on operands that
have an axis, and if every call that it accepts can be computed, with outputs of the
inferred types. Only memory may run out: the buffers that the operator works in are
listed, and they and the outputs have to be small enough to exist. A verified call
of such an operator succeeds (`Operator.Fulfils.executeVerified_eq_ok`), and it is
enough to look at calls whose static arguments are bound (`Operator.fulfils`).
-/

namespace TraceSubstitution

/-- Buffers of the given sizes can exist, and so can tensors of the given types. -/
def Available (scratch : List Nat) (outputs : List TensorType) : Prop :=
  (∀ n ∈ scratch, n < bufferBound) ∧ ∀ type ∈ outputs, type.numElements < bufferBound

theorem Tensor.exists_of_type {α : Type} {x : Option (Tensor α)} {type : TensorType}
    (h : x.map Tensor.type = some type) : ∃ t, x = some t ∧ t.type = type :=
  Option.map_eq_some_iff.1 h

namespace Operator

variable {α : Type}

/-- Type inference is a sufficient contract for calls of an operator that works in buffers of the
sizes `scratch`. -/
structure Fulfils (o : Operator α) (scratch : List (Option TensorType) → List Nat) : Prop where
  reports : ∀ types attrs, (∀ type, some type ∈ types → type.dims ≠ []) →
    Reports (o.infer types attrs) fun _ => True
  returns : ∀ {tensors : List (Option (Tensor α))} {attrs outputs},
    o.infer (tensors.map (·.map Tensor.type)) attrs = .ok outputs →
      Available (scratch (tensors.map (·.map Tensor.type))) outputs →
        Returns (o.execute tensors attrs) fun results => results.map Tensor.type = outputs

variable {o : Operator α} {scratch : List (Option TensorType) → List Nat}

/-- The outputs of a call that is accepted pass their check. -/
theorem Fulfils.executeVerified_eq_ok (h : o.Fulfils scratch) {tensors : List (Option (Tensor α))}
    {attrs : Attrs} {outputs : List TensorType}
    (hinfer : o.infer (tensors.map (·.map Tensor.type)) attrs = .ok outputs)
    (havailable : Available (scratch (tensors.map (·.map Tensor.type))) outputs) :
    ∃ results, o.execute tensors attrs = .ok results ∧ results.map Tensor.type = outputs ∧
      o.executeVerified tensors attrs = .ok results := by
  obtain ⟨results, hrun, htypes⟩ := returns_iff.1 (h.returns hinfer havailable)
  refine ⟨results, hrun, htypes, executeVerified_eq_ok_iff.2 ⟨hrun, ?_⟩⟩
  rw [htypes, hinfer]

/-- Binding does not look at the operands, so a call whose types are accepted can be bound. -/
theorem exists_bound {tensors : List (Option (Tensor α))} {attrs : Attrs}
    {outputs : List TensorType}
    (hinfer : o.infer (tensors.map (·.map Tensor.type)) attrs = .ok outputs) :
    ∃ bound, o.bind tensors attrs = .ok bound ∧
      tensors.length = o.signature.tensors.length ∧
      o.signature.bindAttrs o.qualifiedName attrs = .ok bound ∧
      o.outputTypes ⟨o.qualifiedName, tensors.map (·.map Tensor.type), bound⟩ = .ok outputs := by
  obtain ⟨bound, hbind, hbound⟩ := infer_eq_ok_iff.1 hinfer
  rw [bind_map] at hbind
  obtain ⟨hoperands, hattrs⟩ := bind_eq_ok_iff.1 hbind
  exact ⟨bound, hbind, Signature.length_of_checkOperands hoperands, hattrs,
    withContext_eq_ok_iff.1 hbound⟩

/-- A bound call is computed on the dense forms of the operands. -/
theorem execute_eq_ok {tensors : List (Option (Tensor α))} {attrs bound : Attrs}
    {results : List (Tensor α)} (hbind : o.bind tensors attrs = .ok bound)
    (hrun : o.compute ⟨o.qualifiedName, tensors.map (·.map Tensor.contiguous), bound⟩ =
      .ok results) : o.execute tensors attrs = .ok results := by
  unfold execute
  rw [hbind, ok_bind]
  exact withContext_eq_ok_iff.2 hrun

/-- An operator fulfils its contract if it does so on bound calls. -/
theorem fulfils
    (hreports : ∀ args, (∀ i type, args.optional i = some type → type.dims ≠ []) →
      Reports (o.outputTypes args) fun _ => True)
    (hreturns : ∀ {tensors : List (Option (Tensor α))} {attrs bound outputs},
      tensors.length = o.signature.tensors.length →
      o.signature.bindAttrs o.qualifiedName attrs = .ok bound →
      o.outputTypes ⟨o.qualifiedName, tensors.map (·.map Tensor.type), bound⟩ = .ok outputs →
      Available (scratch (tensors.map (·.map Tensor.type))) outputs →
        Returns (o.compute ⟨o.qualifiedName, tensors.map (·.map Tensor.contiguous), bound⟩)
          fun results => results.map Tensor.type = outputs) : o.Fulfils scratch where
  reports types attrs htypes := by
    refine reports_infer fun bound => hreports _ fun i type htype => htypes type ?_
    exact List.mem_of_getElem? (Option.join_eq_some_iff.1 htype)
  returns {tensors attrs outputs} hinfer havailable := by
    obtain ⟨bound, hbind, hlength, hattrs, htypes⟩ := exists_bound hinfer
    obtain ⟨results, hrun, hresults⟩ := returns_iff.1 (hreturns hlength hattrs htypes havailable)
    exact returns_of_eq_ok (execute_eq_ok hbind hrun) hresults

end Operator

end TraceSubstitution
