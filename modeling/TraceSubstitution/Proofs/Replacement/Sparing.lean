import TraceSubstitution.Proofs.Gradient.Fragment
import TraceSubstitution.Proofs.Replacement.Interface
import TraceSubstitution.Proofs.Trace.Calling
import TraceSubstitution.Proofs.Trace.Numbering

/-!
# Sources that no rule admits

If no rule admits a call of the source (`Replacer.Spares`), all calls are recorded again.
The copy is numbered in order: the inputs are declared first, and then come the outputs of
one call after the other (`Progress.Reorders`). So the forward program is the source with
this numbering, and nothing else changes (`Replacer.forward_of_spares`).
-/

namespace TraceSubstitution

variable {α : Type}

/-- The types of the operands of a call in a program with the given symbols. -/
def Node.operandTypes (symbols : List TensorType) (n : Node α) : List (Option TensorType) :=
  n.inputs.map (·.bind fun id => symbols[id.index]?)

theorem Node.Typed.operandTypes_eq {symbols : List TensorType} {n : Node α}
    {operandTypes : List (Option TensorType)} {outputs : List TensorType}
    (h : n.Typed symbols operandTypes outputs) : n.operandTypes symbols = operandTypes := by
  have hjoin := congrArg (List.map Option.join) h.inputTypes
  simp only [List.map_map] at hjoin
  have hread : (fun x : Option SymbolId => x.bind fun id => symbols[id.index]?) =
      Option.join ∘ fun x => x.map fun id => symbols[id.index]? := by
    funext x
    cases x <;> rfl
  have hsame : (Option.join ∘ fun x : Option TensorType => x.map some) = id := by
    funext x
    cases x <;> rfl
  unfold Node.operandTypes
  rw [hread, hjoin, hsame, List.map_id]

/-- No rule that the replacer may use admits a high-level call of the program, on whatever operands
of the right types. -/
def Replacer.Spares (r : Replacer α) (p : Trace α) : Prop :=
  ∀ n ∈ p.nodes, ∀ o, n.op = .highLevel o → ∀ operands : List (Option Symbol),
    operands.map (·.map Symbol.type) = n.operandTypes p.symbols →
      ∀ rule ∈ r.registry.candidateRules o r.options.executors false,
        rule.admits ⟨o.qualifiedName, operands, n.attrs⟩ = .ok false

/-- What stands for a symbol of a program in its copy that is numbered in order. -/
def Trace.stand (source : Trace α) (id : TraceId) (x : SymbolId) : Option Symbol :=
  (source.typeOf? x).map (⟨id, source.place x, ·⟩)

/-- Symbols that come one after the other are stood for by fresh symbols. -/
theorem Trace.map_fresh_eq_stand {source : Trace α} {t : Tracer α} {ids : List SymbolId}
    {types : List TensorType} (htypes : ids.map source.typeOf? = types.map some)
    (hplace : ids.map source.place =
      (List.range ids.length).map fun i => (⟨t.symbols.length + i⟩ : SymbolId)) :
    (t.fresh types).map some = ids.map (source.stand t.id) := by
  have hlength : ids.length = types.length := by simpa using congrArg List.length htypes
  apply List.ext_getElem
  · simp [hlength]
  · intro i hi hi'
    have hlt : i < ids.length := by simpa using hi'
    have hlt' : i < types.length := hlength ▸ hlt
    have htype : source.typeOf? ids[i] = some types[i] := by
      simpa [hlt, hlt'] using congrArg (·[i]?) htypes
    have hnumber : source.place ids[i] = ⟨t.symbols.length + i⟩ := by
      simpa [hlt] using congrArg (·[i]?) hplace
    simp [Tracer.fresh, Trace.stand, htype, hnumber]

/-- What a map holds under numbers new and old is what the symbols there say. -/
theorem SymbolMap.get?_insertAll_of_forall {β : Type*} {m : SymbolMap β} {known ids : List SymbolId}
    {xs : List β} {f : SymbolId → Option β} (hm : ∀ id ∈ known, m.get? id = f id)
    (hids : ids.Nodup) (hxs : xs.map some = ids.map f) :
    ∀ id ∈ known ++ ids, (m.insertAll ids xs).get? id = f id := by
  have hlength : ids.length = xs.length := by simpa using (congrArg List.length hxs).symm
  have hnew : ids.map (m.insertAll ids xs).get? = ids.map f :=
    (map_get?_insertAll hids hlength m).trans hxs
  intro id hid
  by_cases hmem : id ∈ ids
  · exact List.map_inj_left.1 hnew id hmem
  · rw [get?_insertAll_of_notMem hmem]
    exact hm id ((List.mem_append.1 hid).resolve_right hmem)

/-- The inputs and the first calls of the source have been recorded, numbered in order. -/
structure Progress.Reorders (source : Trace α) (done : List (Node α)) (p : Progress α) : Prop where
  capture : p.tracer.capture = none
  symbols : (source.inputs ++ done.flatMap (·.outputs)).map source.typeOf? =
    p.tracer.symbols.map some
  inputs : p.tracer.inputs = source.inputs.map source.place
  nodes : p.tracer.nodes = done.map (·.renumber source.place)
  stands : ∀ x ∈ source.inputs ++ done.flatMap (·.outputs),
    p.symbols.get? x = source.stand p.tracer.id x

namespace Progress.Reorders

variable {source : Trace α} {done : List (Node α)} {p : Progress α}

theorem start (honce : source.order.Nodup) {id : TraceId} (h : Progress.start id source = .ok p) :
    p.Reorders source [] ∧ p.tracer.id = id := by
  obtain ⟨types, htypes, rfl⟩ := start_eq_ok_iff.1 h
  have horder : source.order = [] ++ source.inputs ++ source.nodes.flatMap (·.outputs) := rfl
  have hplace := Trace.map_place honce horder
  have hfresh := Trace.map_fresh_eq_stand (t := (.empty id : Tracer α)) htypes hplace
  have hinputs : source.inputs.Nodup := (List.nodup_append.1 honce).1
  refine ⟨⟨rfl, ?_, ?_, rfl, ?_⟩, rfl⟩
  · rw [List.flatMap_nil, List.append_nil]
    exact htypes
  · have hlength : source.inputs.length = types.length := by simpa using congrArg List.length htypes
    rw [hplace, hlength]
    exact Tracer.map_id_fresh types
  · rw [List.flatMap_nil, List.append_nil]
    have hnone : ∀ x ∈ ([] : List SymbolId), SymbolMap.empty.get? x = source.stand id x := nofun
    exact SymbolMap.get?_insertAll_of_forall hnone hinputs hfresh

/-- A symbol that has been gone through is stood for by one of its type, under its place. -/
theorem exists_stand (h : p.Reorders source done) {more : List SymbolId}
    (horder : source.order = (source.inputs ++ done.flatMap (·.outputs)) ++ more) {x : SymbolId}
    (hx : x ∈ source.inputs ++ done.flatMap (·.outputs)) :
    ∃ s, p.symbols.get? x = some s ∧ p.tracer.owns s = true ∧ s.id = source.place x ∧
      source.typeOf? x = some s.type := by
  have hread : p.tracer.symbols[(source.place x).index]?.map some = some (source.typeOf? x) := by
    have hget := congrArg (·[(source.place x).index]?) h.symbols
    rw [Trace.place_of_mem horder hx] at hget ⊢
    rw [List.getElem?_map, List.getElem?_map, List.getElem?_idxOf hx] at hget
    exact hget.symm
  obtain ⟨type, htype, hsome⟩ := Option.map_eq_some_iff.1 hread
  have hstand : source.stand p.tracer.id x = some ⟨p.tracer.id, source.place x, type⟩ := by
    unfold Trace.stand
    rw [← hsome, Option.map_some]
  exact ⟨⟨p.tracer.id, source.place x, type⟩, (h.stands x hx).trans hstand,
    Tracer.owns_iff.2 ⟨rfl, htype⟩, rfl, hsome.symm⟩

/-- What stands for operands that have been gone through. -/
theorem exists_operands (h : p.Reorders source done) {more : List SymbolId}
    (horder : source.order = (source.inputs ++ done.flatMap (·.outputs)) ++ more) {n : Node α}
    (hreads : ∀ id, some id ∈ n.inputs → id ∈ source.inputs ++ done.flatMap (·.outputs)) :
    ∃ operands, p.operandsFor n = .ok operands ∧
      (∀ s, some s ∈ operands → p.tracer.owns s = true) ∧
      operands.map (·.map Symbol.id) = n.inputs.map (·.map source.place) ∧
      operands.map (·.map Symbol.type) = n.operandTypes source.symbols := by
  have hone : ∀ x ∈ n.inputs, x.map p.symbols.get? = (x.bind p.symbols.get?).map some ∧
      (∀ s, x.bind p.symbols.get? = some s → p.tracer.owns s = true) ∧
      (x.bind p.symbols.get?).map Symbol.id = x.map source.place ∧
      (x.bind p.symbols.get?).map Symbol.type = x.bind fun id => source.symbols[id.index]? := by
    intro x hx
    cases x with
    | none => exact ⟨rfl, nofun, rfl, rfl⟩
    | some id =>
      obtain ⟨s, hs, howns, hid, htype⟩ := h.exists_stand horder (hreads id hx)
      simp only [Option.map_some, Option.bind_some, hs, Option.some.injEq, true_and]
      exact ⟨fun s' heq => heq ▸ howns, hid, htype.symm⟩
  refine ⟨n.inputs.map (·.bind p.symbols.get?), operandsFor_eq_ok_iff.2 ?_, fun s hs => ?_, ?_, ?_⟩
  · rw [List.map_map]
    exact List.map_congr_left fun x hx => (hone x hx).1
  · obtain ⟨x, hx, heq⟩ := List.mem_map.1 hs
    exact (hone x hx).2.1 s heq
  · rw [List.map_map]
    exact List.map_congr_left fun x hx => (hone x hx).2.2.1
  · rw [List.map_map]
    exact List.map_congr_left fun x hx => (hone x hx).2.2.2

/-- The next call can be recorded again. -/
theorem exists_call (h : p.Reorders source done) (honce : source.order.Nodup) {n : Node α}
    {more : List SymbolId}
    (horder : source.order = (source.inputs ++ done.flatMap (·.outputs)) ++ n.outputs ++ more)
    (hreads : ∀ id, some id ∈ n.inputs → id ∈ source.inputs ++ done.flatMap (·.outputs))
    {operandTypes : List (Option TensorType)} {declared : List TensorType}
    (hn : n.Typed source.symbols operandTypes declared)
    (hproper : n.op.operator.signature.Proper) :
    ∃ operands outputs t, p.operandsFor n = .ok operands ∧
      operands.map (·.map Symbol.type) = n.operandTypes source.symbols ∧
      (Tracer.call n.op operands n.attrs).apply p.tracer = (.ok outputs, t) ∧
      outputs.length = n.outputs.length ∧ t.id = p.tracer.id ∧ ∀ report,
        Reorders source (done ++ [n]) ⟨t, p.symbols.insertAll n.outputs outputs, report⟩ := by
  have horder' := horder
  rw [List.append_assoc] at horder'
  obtain ⟨operands, hoperands, howned, hids, htypes⟩ := h.exists_operands horder' hreads
  have hcall := hn.apply_call hproper (htypes.trans hn.operandTypes_eq) howned
  rw [Tracer.declare_append h.capture] at hcall
  have hlength : n.outputs.length = declared.length := by
    simpa using congrArg List.length hn.outputTypes
  have hsymbols : (source.inputs ++ done.flatMap (·.outputs)).length = p.tracer.symbols.length := by
    simpa using congrArg List.length h.symbols
  have hplace := Trace.map_place honce horder
  rw [hsymbols] at hplace
  have hfresh := Trace.map_fresh_eq_stand hn.outputTypes hplace
  have houtputs : n.outputs.Nodup := by
    rw [horder] at honce
    exact (List.nodup_append.1 (List.nodup_append.1 honce).1).2.1
  refine ⟨operands, _, _, hoperands, htypes, hcall, ?_, rfl, fun report =>
    ⟨h.capture, ?_, h.inputs, ?_, ?_⟩⟩
  · rw [Tracer.length_fresh, hlength]
  · rw [List.flatMap_append, List.flatMap_singleton, ← List.append_assoc, List.map_append, h.symbols,
      List.map_append]
    exact congrArg _ hn.outputTypes
  · change p.tracer.nodes ++ [p.tracer.nextNode n.op operands n.attrs declared] = _
    rw [h.nodes, List.map_append, List.map_singleton]
    unfold Tracer.nextNode Node.renumber
    rw [hids, Tracer.map_id_fresh, hplace, hlength]
  · rw [List.flatMap_append, List.flatMap_singleton, ← List.append_assoc]
    exact SymbolMap.get?_insertAll_of_forall h.stands houtputs hfresh

/-- What stands for a list of symbols. -/
theorem exists_symbols (h : p.Reorders source done) {more ids : List SymbolId}
    (horder : source.order = (source.inputs ++ done.flatMap (·.outputs)) ++ more)
    (hids : ids ⊆ source.inputs ++ done.flatMap (·.outputs)) :
    ∃ symbols, ids.mapM p.symbolFor = .ok symbols ∧ (∀ s ∈ symbols, p.tracer.owns s = true) ∧
      symbols.map Symbol.id = ids.map source.place := by
  simp only [symbolsFor_eq_ok_iff]
  induction ids with
  | nil => exact ⟨[], rfl, nofun, rfl⟩
  | cons id ids ih =>
    obtain ⟨hid, hids⟩ := List.cons_subset.1 hids
    obtain ⟨s, hs, howns, hplace, -⟩ := h.exists_stand horder hid
    obtain ⟨symbols, hsymbols, howned, hplaces⟩ := ih hids
    refine ⟨s :: symbols, ?_, List.forall_mem_cons.2 ⟨howns, howned⟩, ?_⟩
    · rw [List.map_cons, List.map_cons, hs, hsymbols]
    · rw [List.map_cons, List.map_cons, hplace, hplaces]

/-- When all calls have been gone through, the program can be closed. -/
theorem exists_finish (h : p.Reorders source source.nodes) (hclosed : source.Closed) :
    ∃ outputs, source.outputs.mapM p.symbolFor = .ok outputs ∧
      p.tracer.finish outputs = .ok (source.numbered p.tracer.id) := by
  obtain ⟨outputs, houtputs, howned, hplaces⟩ :=
    h.exists_symbols (List.append_nil source.order).symm hclosed.2
  have hsymbols : source.order.filterMap source.typeOf? = p.tracer.symbols :=
    Trace.filterMap_eq_of_map h.symbols
  refine ⟨outputs, houtputs, Tracer.finish_eq_ok_iff.2 ⟨h.capture, howned, ?_⟩⟩
  unfold Trace.numbered
  rw [hsymbols, h.inputs, h.nodes, hplaces]

end Progress.Reorders

namespace Replacer

variable {r : Replacer α} {ops : Set (Operator α)} {source : Trace α} {done nodes : List (Node α)}
  {p : Progress α} {n : Node α} {s : Journaled (Decisions α)}

/-- A call that no rule admits is gone through if it can be recorded again. -/
theorem exists_step_of_call (hs : s.state.Right r ops) (hn : n.op.operator ∈ ops)
    {operands : List (Option Symbol)} (hoperands : p.operandsFor n = .ok operands)
    (hnone : ∀ o, n.op = .highLevel o →
      r.chosenRule o ⟨o.qualifiedName, operands, n.attrs⟩ false = .ok none)
    {outputs : List Symbol} {t : Tracer α}
    (hcall : (Tracer.call n.op operands n.attrs).apply p.tracer = (.ok outputs, t))
    (hlength : outputs.length = n.outputs.length) (index : Nat) : ∃ report s',
      (r.step false p index n).apply s =
        (.ok (⟨t, p.symbols.insertAll n.outputs outputs, report⟩, ⟨[], []⟩), s') := by
  cases hop : n.op with
  | kernel o =>
    rw [hop] at hcall
    have hstep := kernelStep_eq_ok_iff.2
      ⟨rfl, rfl, operands, outputs, t, hoperands, hcall, hlength, rfl⟩
    exact ⟨p.report, s, by rw [apply_step_kernel hop, hstep]⟩
  | highLevel o =>
    rw [hop] at hcall hn
    have ho : o ∈ ops := hn
    obtain ⟨journal, hstep⟩ := apply_step_of_right hs ho hop hoperands false index
    rw [hnone o hop] at hstep
    have houtputs := replacement_false_of_ok (r := r)
      (forwardOutputs_none_eq_ok_iff.2 ⟨t, hcall, rfl⟩)
    rw [hstep]
    exact ⟨_, _, Prod.ext (decidedStep_eq_ok_iff.2 ⟨outputs, _, houtputs, hlength, rfl⟩) rfl⟩

/-- If no rule admits a call of the source, all calls are recorded again, numbered in order. -/
theorem reorders_of_steps (hr : r.TypeDirected) (hids : Set.InjOn Operator.id ops)
    (hs : s.state.Right r ops) (hsource : source.Recorded)
    (hops : ∀ n ∈ source.nodes, n.op.operator ∈ ops ∧ n.op.operator.signature.Proper)
    (hspares : r.Spares source) (h : p.Reorders source done) (hnodes : source.nodes = done ++ nodes)
    (index : Nat) : ∃ p' fragments s',
      (r.steps false p index nodes).apply s = (.ok (p', fragments), s') ∧
        p'.Reorders source source.nodes ∧ p'.tracer.id = p.tracer.id := by
  induction nodes generalizing p done index s with
  | nil =>
    rw [List.append_nil] at hnodes
    exact ⟨p, [], s, rfl, hnodes ▸ h, rfl⟩
  | cons n nodes ih =>
    have hmem : n ∈ source.nodes := hnodes ▸ List.mem_append_right done List.mem_cons_self
    obtain ⟨hn, hproper⟩ := hops n hmem
    obtain ⟨operandTypes, declared, htyped⟩ := hsource.typed n hmem
    have horder : source.order = (source.inputs ++ done.flatMap (·.outputs)) ++ n.outputs ++
        nodes.flatMap (·.outputs) := by
      unfold Trace.order
      rw [hnodes, List.flatMap_append, List.flatMap_cons]
      simp only [List.append_assoc]
    have hreads := (Node.closed_cons.1 ((Node.closed_append source.inputs done (n :: nodes)).1
      (hnodes ▸ hsource.closed.1)).2).1
    obtain ⟨operands, outputs, t, hoperands, htypes, hcall, hlength, hid, hreorders⟩ :=
      h.exists_call hsource.nodup horder hreads htyped hproper
    have hnone : ∀ o, n.op = .highLevel o →
        r.chosenRule o ⟨o.qualifiedName, operands, n.attrs⟩ false = .ok none := fun o hop =>
      firstAdmitting_eq_none_iff.2 (hspares n hmem o hop operands htypes)
    obtain ⟨report, s₁, hstep⟩ := exists_step_of_call hs hn hoperands hnone hcall hlength index
    have hright := right_step hr hids hs hn false p index
    rw [hstep] at hright
    obtain ⟨p', fragments, s', hsteps, hp', hid'⟩ := ih hright (hreorders report)
      (by rw [hnodes, List.append_assoc, List.singleton_append]) (index + 1)
    exact ⟨p', _, s', steps_cons_eq_ok_iff.2 ⟨_, _, s₁, fragments, hstep, hsteps, rfl⟩, hp',
      hid'.trans hid⟩

/-- If no rule admits a call of the source, the forward program is the source, numbered in order. -/
theorem forward_of_spares (hr : r.TypeDirected) (hids : Set.InjOn Operator.id ops)
    (hs : s.state.Right r ops) (hsource : source.Recorded)
    (hops : ∀ n ∈ source.nodes, n.op.operator ∈ ops ∧ n.op.operator.signature.Proper)
    (hspares : r.Spares source) (id : TraceId) :
    ∃ x s', (r.forward id source).apply s = (.ok x, s') ∧ x.trace = source.numbered id := by
  obtain ⟨types, htypes⟩ := hsource.exists_inputTypes
  have hstart : Progress.start id source = .ok _ :=
    Progress.start_eq_ok_iff.2 ⟨types, htypes, rfl⟩
  obtain ⟨hreorders, hid⟩ := Progress.Reorders.start hsource.nodup hstart
  obtain ⟨p, fragments, s₁, hsteps, hp, hid'⟩ :=
    reorders_of_steps hr hids hs hsource hops hspares hreorders rfl 0
  obtain ⟨outputs, houtputs, hfinish⟩ := hp.exists_finish hsource.closed
  rw [hid'.trans hid] at hfinish
  obtain ⟨s', hforward⟩ := exists_forward hstart hsteps houtputs hfinish
  exact ⟨_, s', hforward, rfl⟩

end Replacer

end TraceSubstitution
