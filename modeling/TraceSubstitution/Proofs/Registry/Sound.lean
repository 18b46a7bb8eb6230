import TraceSubstitution.Proofs.Operator.Binding
import TraceSubstitution.Proofs.Registry.Kernels
import TraceSubstitution.Proofs.Trace.Recording
import TraceSubstitution.Proofs.Trace.Values

/-!
# Sound rules

A symbol stands for a tensor in a program if its value has the same contents. The
calls that are added to a program yield tensors if they run on the values so far
and the output symbols stand for these tensors afterwards (`Tracer.Yields`). A
rule is sound if whatever its execution transform records for a call that it
admits yields the outputs of that call.

A call yields the outputs of its operator (`Tracer.yields_of_call`), so a rule that
calls its target as a kernel is sound: `Operator.sound_asKernel`.
-/

namespace TraceSubstitution

variable {α : Type}

/-- The symbol stands for a tensor: it has the type of the tensor, and a value with the same
contents. -/
structure Tracer.Stands (t : Tracer α) (values : SymbolMap (Tensor α)) (s : Symbol)
    (x : Tensor α) : Prop where
  owned : t.owns s = true
  type : s.type = x.type
  value : ∃ y, values.get? s.id = some y ∧ y.contents = x.contents

/-- The calls that the second program has more than the first one run on the given values, and then
the symbols stand for the tensors. -/
def Tracer.Yields (t t' : Tracer α) (values : SymbolMap (Tensor α)) (outputs : List Symbol)
    (outs : List (Tensor α)) : Prop :=
  ∃ values', Trace.evalNodes true (t'.nodes.drop t.nodes.length) values = .ok values' ∧
    List.Forall₂ (t'.Stands values') outputs outs

/-- A call of an operator in a program, with tensors for its operands and for nothing else. -/
structure ConcreteCall (o : Operator α) (t : Tracer α) (args : Operands Symbol)
    (values : SymbolMap (Tensor α)) (xs : List (Option (Tensor α))) : Prop where
  recording : t.capture = none
  name : args.op = o.qualifiedName
  owned : ∀ s, some s ∈ args.tensors → t.owns s = true
  bound : ∃ attrs, o.signature.bindAttrs o.qualifiedName attrs = .ok args.attrs
  types : args.tensors.map (·.map Symbol.type) = xs.map (·.map Tensor.type)
  reads : (args.tensors.map (·.map Symbol.id)).map (·.map values.get?) = xs.map (·.map some)
  only : ∀ id x, values.get? id = some x → some id ∈ args.tensors.map (·.map Symbol.id)

/-- Whatever the execution transform records for a call that the rule admits yields the outputs of
the target on all operands on which the target runs. -/
def Rule.Sound (rule : Rule α) : Prop :=
  ∀ (t t' : Tracer α) (args : Operands Symbol) (values : SymbolMap (Tensor α))
    (xs : List (Option (Tensor α))) (outs : List (Tensor α)) (outputs : List Symbol),
    ConcreteCall rule.target t args values xs → rule.admits args = .ok true →
      rule.target.executeVerified xs args.attrs = .ok outs →
        (rule.execution args).run.apply t = (.ok outputs, t') → t.Yields t' values outputs outs

namespace Tracer

variable {t t' : Tracer α} {values more : SymbolMap (Tensor α)} {outputs : List Symbol}
  {outs : List (Tensor α)}

theorem Extends.nodes_eq (h : t.Extends t') :
    t'.nodes = t.nodes ++ t'.nodes.drop t.nodes.length := by
  obtain ⟨added, hadded, -⟩ := h.nodes
  rw [hadded, List.drop_left]

theorem Extends.length_nodes_le (h : t.Extends t') : t.nodes.length ≤ t'.nodes.length := by
  rw [h.nodes_eq, List.length_append]
  exact Nat.le_add_right _ _

/-- Symbols of a program keep their values when calls are added to the program. -/
theorem Stands.extend {s : Symbol} {x : Tensor α} (h : t.Stands values s x) (hext : t.Extends t')
    {values' : SymbolMap (Tensor α)}
    (hrun : Trace.evalNodes true (t'.nodes.drop t.nodes.length) values = .ok values') :
    t'.Stands values' s x where
  owned := hext.owns h.owned
  type := h.type
  value := by
    obtain ⟨added, hadded, hfresh⟩ := hext.nodes
    obtain ⟨y, hy, hcontents⟩ := h.value
    refine ⟨y, ?_, hcontents⟩
    rw [Trace.get?_evalNodes hrun, hy]
    intro n hn hmem
    rw [hadded, List.drop_left] at hn
    exact absurd (hfresh n hn s.id hmem) (Nat.not_le.2 (index_lt_of_owns h.owned))

/-- Calls yield the same when there are more values. -/
theorem Yields.within (h : t.Yields t' values outputs outs) (hle : values.Within more) :
    t.Yields t' more outputs outs := by
  obtain ⟨values', hrun, hstands⟩ := h
  obtain ⟨more', hrun', hle'⟩ := Trace.evalNodes_within hrun hle
  refine ⟨more', hrun', hstands.imp ?_⟩
  intro s x hs
  obtain ⟨y, hy, hcontents⟩ := hs.value
  exact ⟨hs.owned, hs.type, y, hle' s.id y hy, hcontents⟩

/-- Operands that stand for tensors have their types, and values with their contents. -/
theorem reads_of_stands {operands : List (Option Symbol)} {xs : List (Option (Tensor α))}
    (h : List.Forall₂ (Option.Rel (t.Stands values)) operands xs) :
    operands.map (·.map Symbol.type) = xs.map (·.map Tensor.type) ∧
      (∀ s, some s ∈ operands → t.owns s = true) ∧
        ∃ ys : List (Option (Tensor α)),
          (operands.map (·.map Symbol.id)).map (·.map values.get?) = ys.map (·.map some) ∧
            ys.map (·.map Tensor.contents) = xs.map (·.map Tensor.contents) := by
  induction h with
  | nil => exact ⟨rfl, nofun, [], rfl, rfl⟩
  | cons hhead _ ih =>
    obtain ⟨htypes, howned, ys, hreads, hcontents⟩ := ih
    cases hhead with
    | none =>
      refine ⟨congrArg (none :: ·) htypes, ?_, none :: ys, congrArg (none :: ·) hreads,
        congrArg (none :: ·) hcontents⟩
      intro s hs
      rcases List.mem_cons.1 hs with hs | hs
      · exact nomatch hs
      · exact howned s hs
    | @some s x hstands =>
      obtain ⟨y, hy, heq⟩ := hstands.value
      refine ⟨?_, ?_, some y :: ys, ?_, ?_⟩
      · simp only [List.map_cons, Option.map_some, hstands.type, htypes]
      · intro s' hs
        rcases List.mem_cons.1 hs with hs | hs
        · obtain rfl := Option.some.inj hs
          exact hstands.owned
        · exact howned s' hs
      · simp only [List.map_cons, Option.map_some, hy, hreads]
      · simp only [List.map_cons, Option.map_some, heq, hcontents]

/-- Outputs that stand for tensors have values with their contents. -/
theorem values_of_stands {symbols : List Symbol} (h : List.Forall₂ (t.Stands values) symbols outs) :
    ∃ ys : List (Tensor α), (symbols.map Symbol.id).map values.get? = ys.map some ∧
      ys.map Tensor.contents = outs.map Tensor.contents := by
  induction h with
  | nil => exact ⟨[], rfl, rfl⟩
  | cons hhead _ ih =>
    obtain ⟨ys, hvalues, hcontents⟩ := ih
    obtain ⟨y, hy, heq⟩ := hhead.value
    refine ⟨y :: ys, ?_, ?_⟩
    · simp only [List.map_cons, hy, hvalues]
    · simp only [List.map_cons, heq, hcontents]

/-- Symbols with the types and the values of tensors stand for them. -/
theorem stands_of_values : ∀ {symbols : List Symbol} {outs : List (Tensor α)},
    (∀ s ∈ symbols, t.owns s = true) → symbols.map Symbol.type = outs.map Tensor.type →
      (symbols.map Symbol.id).map values.get? = outs.map some →
        List.Forall₂ (t.Stands values) symbols outs
  | [], [], _, _, _ => .nil
  | s :: symbols, x :: outs, howned, htypes, hvalues => by
    obtain ⟨htype, htypes⟩ := List.cons_eq_cons.1 htypes
    obtain ⟨hvalue, hvalues⟩ := List.cons_eq_cons.1 hvalues
    obtain ⟨hs, howned⟩ := List.forall_mem_cons.1 howned
    exact .cons ⟨hs, htype, x, hvalue, rfl⟩ (stands_of_values howned htypes hvalues)
  | [], _ :: _, _, h, _ => nomatch h
  | _ :: _, [], _, h, _ => nomatch h

/-- A call with static arguments that are bound already yields the outputs of its operator. -/
theorem yields_of_call {op : NodeOp α} {operands : List (Option Symbol)} {raw attrs : Attrs}
    {xs : List (Option (Tensor α))} (hcapture : t.capture = none)
    (hbuilt : op.operator.signature.Built)
    (hattrs : op.operator.signature.bindAttrs op.operator.qualifiedName raw = .ok attrs)
    (hcall : (call op operands attrs).apply t = (.ok outputs, t'))
    (htypes : operands.map (·.map Symbol.type) = xs.map (·.map Tensor.type))
    (hreads : (operands.map (·.map Symbol.id)).map (·.map values.get?) = xs.map (·.map some))
    (hrun : op.operator.executeVerified xs attrs = .ok outs) :
    t.Yields t' values outputs outs := by
  obtain ⟨bound, types, hbound, hinferred, howned, rfl, rfl⟩ := call_eq_ok_iff.1 hcall
  obtain ⟨-, hinfer⟩ := Operator.executeVerified_eq_ok_iff.1 hrun
  obtain ⟨bound', hbound', hinfer'⟩ := Operator.infer_eq_ok_iff.1 hinfer
  obtain rfl : bound = attrs :=
    Signature.bindAttrs_rebind hbuilt hattrs (Operator.bind_eq_ok_iff.1 hbound).2
  obtain rfl : bound' = bound :=
    Signature.bindAttrs_rebind hbuilt hattrs (Operator.bind_eq_ok_iff.1 hbound').2
  have houts : types = outs.map Tensor.type := by
    rw [htypes] at hinferred
    cases op with
    | kernel o => exact Except.ok.inj (hinferred.symm.trans hinfer')
    | highLevel o => exact Except.ok.inj (hinferred.symm.trans hinfer)
  have hlength : outs.length = types.length := by rw [houts, List.length_map]
  rw [declare_append hcapture]
  refine ⟨values.insertAll ((t.fresh types).map Symbol.id) outs, ?_, ?_⟩
  · rw [List.drop_left, Trace.evalNodes_cons, Trace.evalNode_eq_ok_iff.2 ⟨xs, outs, hreads, ?_, rfl⟩]
    · rfl
    · exact Trace.computeNode_eq_ok_iff.2 ⟨hrun, by simpa using hlength⟩
  · refine stands_of_values ?_ ?_ ?_
    · intro s hs
      obtain ⟨i, hi, htrace, hid⟩ := mem_fresh.1 hs
      rw [owns_iff, hid]
      exact ⟨htrace, by simpa [List.getElem?_append_right] using hi⟩
    · rw [map_type_fresh, houts]
    · exact SymbolMap.map_get?_insertAll (nodup_map_id_fresh types) (by simpa using hlength.symm)
        values

end Tracer

namespace Operator

theorem sound_asKernel {o : Operator α} (hbuilt : o.signature.Built) (executor : String) :
    (o.asKernel executor).Sound := by
  intro t t' args values xs outs outputs hcall _ hrun hexecution
  obtain ⟨raw, hraw⟩ := hcall.bound
  rcases Recipe.run_call_eq_ok_iff.1 hexecution with ⟨results, t₁, hresults, hnext⟩ | ⟨e, -, hnext⟩
  · obtain ⟨heq, rfl⟩ := Prod.mk.inj hnext
    obtain rfl : results = outputs := Except.ok.inj heq
    have hop : (NodeOp.kernel o).operator.signature.Built := hbuilt
    exact Tracer.yields_of_call hcall.recording hop hraw hresults hcall.types hcall.reads hrun
  · exact nomatch (Prod.mk.inj hnext).1

end Operator

end TraceSubstitution
