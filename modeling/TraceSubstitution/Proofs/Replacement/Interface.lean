import TraceSubstitution.Proofs.Replacement.Walk
import TraceSubstitution.Proofs.Trace.SingleAssignment

/-!
# The interface of a program

What stands for a symbol of the source always has its type: calls are recorded again
on operands of the same types, and what takes the place of a call is checked against
the types that its operator infers (`Progress.Keeps`). So a forward program has inputs
and outputs of the same types as the source, in the same order
(`Replacer.hasInterface_of_forward`).
-/

namespace TraceSubstitution

variable {α : Type}

/-- The inputs and the outputs have types, and these are the given ones in order. -/
structure Trace.HasInterface (p : Trace α) (inputs outputs : List TensorType) : Prop where
  inputs : p.inputs.map p.typeOf? = inputs.map some
  outputs : p.outputs.map p.typeOf? = outputs.map some

namespace Trace

variable {p : Trace α}

theorem filterMap_eq_of_map {β γ : Type} {f : β → Option γ} {xs : List β} {ys : List γ}
    (h : xs.map f = ys.map some) : xs.filterMap f = ys := by
  have hids := congrArg (List.filterMap fun y => y) h
  rw [List.filterMap_map, List.filterMap_map] at hids
  exact hids.trans List.filterMap_some

/-- Tensors of the types of the inputs can be bound to them. -/
theorem HasInterface.inputs_eq {inputs outputs : List TensorType}
    (h : p.HasInterface inputs outputs) {tensors : List (Tensor α)}
    (htensors : tensors.map Tensor.type = inputs) :
    p.inputs.map p.typeOf? = tensors.map (some ·.type) := by
  rw [h.inputs, ← htensors, List.map_map]
  rfl

theorem HasInterface.length_inputs {inputs outputs : List TensorType}
    (h : p.HasInterface inputs outputs) : p.inputs.length = inputs.length := by
  simpa using congrArg List.length h.inputs

theorem HasInterface.length_outputs {inputs outputs : List TensorType}
    (h : p.HasInterface inputs outputs) : p.outputs.length = outputs.length := by
  simpa using congrArg List.length h.outputs

/-- The outputs of a finished program have the types that the symbols carry. -/
theorem map_typeOf?_of_finish {t : Tracer α} {outputs : List Symbol}
    (h : t.finish outputs = .ok p) :
    p.outputs.map p.typeOf? = (outputs.map Symbol.type).map some := by
  obtain ⟨-, howned, rfl⟩ := Tracer.finish_eq_ok_iff.1 h
  rw [List.map_map, List.map_map]
  exact List.map_congr_left fun s hs => (Tracer.owns_iff.1 (howned s hs)).2

theorem Recorded.hasInterface (h : p.Recorded) : p.HasInterface p.inputTypes p.outputTypes := by
  obtain ⟨types, htypes⟩ := h.exists_inputTypes
  obtain ⟨t, outputs, -, hfinish⟩ := h
  have houtputs := map_typeOf?_of_finish hfinish
  refine ⟨?_, ?_⟩
  · rw [show p.inputTypes = types from filterMap_eq_of_map htypes]
    exact htypes
  · rw [show p.outputTypes = outputs.map Symbol.type from filterMap_eq_of_map houtputs]
    exact houtputs

end Trace

namespace Node

/-- Numbers with the given types, beside symbols of these types. -/
theorem forall₂_of_types {source : List TensorType} {ids : List SymbolId} {types : List TensorType}
    {symbols : List Symbol} (hids : ids.map (fun id => source[id.index]?) = types.map some)
    (hsymbols : symbols.map Symbol.type = types) :
    List.Forall₂ (fun id s => source[id.index]? = some s.type) ids symbols := by
  have hmap : ids.map (fun id => source[id.index]?) = symbols.map fun s => some s.type := by
    rw [hids, ← hsymbols, List.map_map]
    rfl
  rwa [← List.forall₂_eq_eq_eq, List.forall₂_map_left_iff, List.forall₂_map_right_iff] at hmap

/-- A typed call that is made again infers the same types, since its static arguments are bound to
themselves. -/
theorem Typed.types_of_call {source : List TensorType} {n : Node α}
    {operandTypes : List (Option TensorType)} {declared : List TensorType}
    (h : n.Typed source operandTypes declared) (hbuilt : n.op.operator.signature.Built)
    {operands : List (Option Symbol)} (htypes : operands.map (·.map Symbol.type) = operandTypes)
    {t t' : Tracer α} {outputs : List Symbol}
    (hcall : (Tracer.call n.op operands n.attrs).apply t = (.ok outputs, t')) :
    outputs.map Symbol.type = declared := by
  obtain ⟨bound, types, hbound, hinferred, -, rfl, -⟩ := Tracer.call_eq_ok_iff.1 hcall
  obtain ⟨attrs, hattrs⟩ := h.bound
  rw [htypes] at hbound hinferred
  obtain rfl := Signature.bindAttrs_rebind hbuilt (Operator.bind_eq_ok_iff.1 hattrs).2
    (Operator.bind_eq_ok_iff.1 hbound).2
  rw [Tracer.map_type_fresh]
  exact Except.ok.inj (hinferred.symm.trans h.inferred)

end Node

namespace Progress

variable {source types : List TensorType} {p p' : Progress α}

/-- The inputs of the new program have the given types, and what stands for a symbol of the source
has its type. -/
structure Keeps (source types : List TensorType) (p : Progress α) : Prop where
  inputs : p.tracer.inputs.map (fun id => p.tracer.symbols[id.index]?) = types.map some
  stands : ∀ id s, p.symbols.get? id = some s → source[id.index]? = some s.type

theorem keeps_start {id : TraceId} {source : Trace α} (h : start id source = .ok p) :
    p.Keeps source.symbols source.inputTypes := by
  obtain ⟨types, htypes, rfl⟩ := start_eq_ok_iff.1 h
  obtain rfl : source.inputTypes = types := Trace.filterMap_eq_of_map htypes
  refine ⟨?_, SymbolMap.fits_insertAll (Node.forall₂_of_types htypes (Tracer.map_type_fresh _))
    nofun⟩
  change (((Tracer.empty id : Tracer α).fresh source.inputTypes).map Symbol.id).map _ = _
  rw [List.map_map]
  exact Tracer.map_getElem?_fresh (t := (Tracer.empty id : Tracer α)) source.inputTypes

/-- What stands for the operands of a typed call has the types of the operands. -/
theorem Keeps.operandTypes (h : p.Keeps source types) {n : Node α}
    {operandTypes : List (Option TensorType)} {declared : List TensorType}
    (hn : n.Typed source operandTypes declared) {operands : List (Option Symbol)}
    (hoperands : p.operandsFor n = .ok operands) :
    operands.map (·.map Symbol.type) = operandTypes := by
  have hsame := SymbolMap.map_of_reads h.stands (operandsFor_eq_ok_iff.1 hoperands)
  exact SymbolMap.reads_injective (hsame.symm.trans hn.inputTypes)

theorem Keeps.symbolTypes (h : p.Keeps source types) {ids : List SymbolId} {symbols : List Symbol}
    (hsymbols : ids.mapM p.symbolFor = .ok symbols) :
    ids.map (fun id => source[id.index]?) = (symbols.map Symbol.type).map some :=
  SymbolMap.map_of_values h.stands (symbolsFor_eq_ok_iff.1 hsymbols)

end Progress

namespace Replacer

variable {r : Replacer α} {gradient : Bool} {source types : List TensorType} {p p' : Progress α}
  {index : Nat} {n : Node α} {nodes : List (Node α)} {s s' : Journaled (Decisions α)}
  {fragment : Fragment α} {fragments : List (Fragment α)}

/-- In either mode a call has outputs of the types that the source declares for them, and the new
program keeps its symbols and inputs. -/
theorem types_of_step (h : p.Keeps source types) {operandTypes : List (Option TensorType)}
    {declared : List TensorType} (hn : n.Typed source operandTypes declared)
    (hbuilt : n.op.operator.signature.Built)
    (hstep : (r.step gradient p index n).apply s = (.ok (p', fragment), s')) :
    ∃ outputs, p'.symbols = p.symbols.insertAll n.outputs outputs ∧
      outputs.map Symbol.type = declared ∧ p.tracer.symbols <+: p'.tracer.symbols ∧
      p'.tracer.inputs = p.tracer.inputs ∧ p'.tracer.id = p.tracer.id := by
  cases gradient with
  | false =>
    obtain ⟨operands, outputs, hoperands, -, hsymbols, hcall | ⟨o, rule, hop, hrun, hinfer⟩⟩ :=
      exists_outputs_of_step hstep
    · have hextends := Tracer.extends_of_call hcall
      exact ⟨outputs, hsymbols, hn.types_of_call hbuilt (h.operandTypes hn hoperands) hcall,
        hextends.symbols, hextends.inputs, hextends.id⟩
    · have hextends := Recipe.extends_of_run hrun
      have hinferred := hn.inferred
      rw [hop] at hinferred
      rw [h.operandTypes hn hoperands] at hinfer
      exact ⟨outputs, hsymbols, Except.ok.inj (hinfer.symm.trans hinferred), hextends.symbols,
        hextends.inputs, hextends.id⟩
  | true =>
    obtain ⟨o, operands, outputs, rule, T, executor, t, hop, hoperands, -, hsymbols, -, hrun,
      hinfer, -, htracer⟩ := exists_gradient_of_step hstep
    have hextends := Recipe.extends_of_run hrun
    have hinferred := hn.inferred
    rw [hop] at hinferred
    rw [h.operandTypes hn hoperands] at hinfer
    rw [htracer]
    exact ⟨outputs, hsymbols, Except.ok.inj (hinfer.symm.trans hinferred), hextends.symbols,
      hextends.inputs, hextends.id⟩

theorem keeps_of_step (h : p.Keeps source types) {operandTypes : List (Option TensorType)}
    {declared : List TensorType} (hn : n.Typed source operandTypes declared)
    (hbuilt : n.op.operator.signature.Built)
    (hstep : (r.step gradient p index n).apply s = (.ok (p', fragment), s')) :
    p'.Keeps source types := by
  obtain ⟨outputs, hsymbols, houtputs, hle, hinputs, -⟩ := types_of_step h hn hbuilt hstep
  refine ⟨?_, ?_⟩
  · rw [hinputs]
    exact Node.map_getElem?_of_le hle h.inputs
  · rw [hsymbols]
    exact SymbolMap.fits_insertAll (Node.forall₂_of_types hn.outputTypes houtputs) h.stands

/-- The calls of the source are typed, and their signatures are made by the builders. -/
def Typable (source : List TensorType) (nodes : List (Node α)) : Prop :=
  ∀ n ∈ nodes, (∃ operandTypes declared, n.Typed source operandTypes declared) ∧
    n.op.operator.signature.Built

theorem keeps_of_steps (h : p.Keeps source types) (hnodes : Typable source nodes)
    (hsteps : (r.steps gradient p index nodes).apply s = (.ok (p', fragments), s')) :
    p'.Keeps source types := by
  induction nodes generalizing p index s fragments with
  | nil =>
    obtain ⟨rfl, -⟩ := Prod.mk.inj (Except.ok.inj (Prod.mk.inj hsteps).1)
    exact h
  | cons n nodes ih =>
    obtain ⟨⟨⟨operandTypes, declared, hn⟩, hbuilt⟩, hnodes⟩ := List.forall_mem_cons.1 hnodes
    obtain ⟨p₁, fragment, s₁, rest, hstep, hrest, -⟩ := steps_cons_eq_ok_iff.1 hsteps
    exact ih (keeps_of_step h hn hbuilt hstep) hnodes hrest

theorem typable {source : Trace α} (h : source.Recorded)
    (hbuilt : ∀ n ∈ source.nodes, n.op.operator.signature.Built) :
    Typable source.symbols source.nodes := fun n hn => ⟨h.typed n hn, hbuilt n hn⟩

/-- A forward program has the interface of the source. -/
theorem hasInterface_of_forward {id : TraceId} {source : Trace α} {x : Replaced α}
    (hsource : source.Recorded) (hbuilt : ∀ n ∈ source.nodes, n.op.operator.signature.Built)
    (h : (r.forward id source).apply s = (.ok x, s')) :
    x.trace.HasInterface source.inputTypes source.outputTypes := by
  obtain ⟨p₀, p, fragments, s₁, outputs, hstart, hsteps, houtputs, hfinish, -⟩ := forward_eq_ok h
  have hkeeps := keeps_of_steps (Progress.keeps_start hstart) (typable hsource hbuilt) hsteps
  have htypes : source.outputTypes = outputs.map Symbol.type :=
    Trace.filterMap_eq_of_map (hkeeps.symbolTypes houtputs)
  refine ⟨?_, htypes ▸ Trace.map_typeOf?_of_finish hfinish⟩
  obtain ⟨-, -, hx⟩ := Tracer.finish_eq_ok_iff.1 hfinish
  rw [hx]
  exact hkeeps.inputs

/-- A report is about the high-level calls of the source, each once and in order. -/
theorem calls_of_forward {id : TraceId} {source : Trace α} {x : Replaced α}
    (h : (r.forward id source).apply s = (.ok x, s')) : x.report.calls = source.namedCalls := by
  obtain ⟨p₀, p, fragments, s₁, outputs, hstart, hsteps, -, -, hreport⟩ := forward_eq_ok h
  rw [hreport, calls_of_steps hsteps, report_start hstart]
  rfl

end Replacer

end TraceSubstitution
