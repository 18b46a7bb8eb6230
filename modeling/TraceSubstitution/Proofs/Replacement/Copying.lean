import TraceSubstitution.Proofs.Gradient.Fragment
import TraceSubstitution.Proofs.Replacement.Interface
import TraceSubstitution.Proofs.Trace.Renumbering

/-!
# Forward programs in which nothing is replaced

A call that nothing replaces is recorded again. So a forward program of which nothing
has been replaced is its source under other numbers (`Replacer.repeats_of_steps`), and
both compute the same from the same tensors, failures included
(`Replacer.execute_of_fallback`).
-/

namespace TraceSubstitution

variable {α : Type}

/-- Nothing has been replaced. -/
def Report.Untouched (r : Report) : Prop := ∀ record ∈ r, record.outcome = .fallback

/-- What has been recorded so far are the inputs and the first calls of the source, under the
numbers of the symbols that stand for theirs. -/
structure Progress.Repeats (σ : SymbolId → SymbolId) (inputs : List SymbolId)
    (nodes : List (Node α)) (p : Progress α) : Prop where
  capture : p.tracer.capture = none
  tracer : p.tracer.Renumbers σ inputs nodes
  symbols : ∀ id s, p.symbols.get? id = some s →
    id ∈ inputs ++ nodes.flatMap (·.outputs) ∧ s.id = σ id

namespace Progress

variable {σ : SymbolId → SymbolId} {inputs : List SymbolId} {nodes : List (Node α)}
  {p : Progress α}

theorem Repeats.operandIds (h : p.Repeats σ inputs nodes) {n : Node α}
    {operands : List (Option Symbol)} (hoperands : p.operandsFor n = .ok operands) :
    operands.map (·.map Symbol.id) = n.inputs.map (·.map σ) := by
  have hread := SymbolMap.map_of_reads (f := fun id => some (σ id)) (g := Symbol.id)
    (fun id s hs => congrArg some (h.symbols id s hs).2.symm) (operandsFor_eq_ok_iff.1 hoperands)
  have hsame : n.inputs.map (·.map fun id => some (σ id)) =
      (n.inputs.map (·.map σ)).map (·.map some) := by
    rw [List.map_map]
    refine List.map_congr_left fun x _ => ?_
    cases x with
    | none => rfl
    | some id => rfl
  exact SymbolMap.reads_injective (hread.symm.trans hsame)

theorem Repeats.symbolIds (h : p.Repeats σ inputs nodes) {ids : List SymbolId}
    {symbols : List Symbol} (hsymbols : ids.mapM p.symbolFor = .ok symbols) :
    symbols.map Symbol.id = ids.map σ := by
  have hread := SymbolMap.map_of_values (f := fun id => some (σ id)) (g := Symbol.id)
    (fun id s hs => congrArg some (h.symbols id s hs).2.symm) (symbolsFor_eq_ok_iff.1 hsymbols)
  refine (List.map_injective_iff.2 (Option.some_injective _) ?_).symm
  rw [← hread, List.map_map]
  rfl

/-- At the beginning there are the inputs. -/
theorem repeats_start {id : TraceId} {source : Trace α} (h : start id source = .ok p)
    (hnodup : source.inputs.Nodup) : ∃ σ, p.Repeats σ source.inputs [] := by
  obtain ⟨types, htypes, rfl⟩ := start_eq_ok_iff.1 h
  let t : Tracer α := .empty id
  have hlength : source.inputs.length = (t.fresh types).length := by
    have hlengths := congrArg List.length htypes
    rw [List.length_map, List.length_map] at hlengths
    rw [Tracer.length_fresh, hlengths]
  let m := SymbolMap.empty.insertAll source.inputs (t.fresh types)
  let σ (x : SymbolId) : SymbolId := ((m.get? x).map Symbol.id).getD x
  have hget : ∀ x s, m.get? x = some s → σ x = s.id := by
    intro x s hs
    change Option.getD (Option.map _ _) _ = _
    rw [hs]
    rfl
  refine ⟨σ, rfl, ⟨?_, rfl⟩, fun x s hs => ⟨?_, (hget x s hs).symm⟩⟩
  · have hall := SymbolMap.map_get?_insertAll hnodup hlength .empty
    have hread := SymbolMap.map_of_values (f := fun x => some (σ x)) (g := Symbol.id)
      (fun x s hs => congrArg some (hget x s hs)) hall
    refine (List.map_injective_iff.2 (Option.some_injective _) ?_)
    change ((t.fresh types).map Symbol.id).map some = _
    rw [← hread, List.map_map]
    rfl
  · by_contra hnot
    rw [List.flatMap_nil, List.append_nil] at hnot
    rw [SymbolMap.get?_insertAll_of_notMem hnot] at hs
    exact nomatch hs

/-- A call of the source is recorded again: its outputs get the numbers of the new symbols. -/
theorem Repeats.call (h : p.Repeats σ inputs nodes) (hclosed : Node.Closed inputs nodes)
    {n : Node α} (hreads : ∀ id, some id ∈ n.inputs → id ∈ inputs ++ nodes.flatMap (·.outputs))
    (hfresh : ∀ id ∈ n.outputs, id ∉ inputs ++ nodes.flatMap (·.outputs))
    (hnodup : n.outputs.Nodup) (hbuilt : n.op.operator.signature.Built)
    (hbound : ∃ types attrs, n.op.operator.bind (types : List (Option TensorType)) attrs =
      .ok n.attrs)
    {operands : List (Option Symbol)} (hoperands : p.operandsFor n = .ok operands)
    {t : Tracer α} {outputs : List Symbol} (hlength : outputs.length = n.outputs.length)
    (hcall : (Tracer.call n.op operands n.attrs).apply p.tracer = (.ok outputs, t))
    (report : Report) : ∃ τ,
      Repeats τ inputs (nodes ++ [n]) ⟨t, p.symbols.insertAll n.outputs outputs, report⟩ := by
  obtain ⟨bound, types, hbind, -, -, rfl, rfl⟩ := Tracer.call_eq_ok_iff.1 hcall
  obtain ⟨_, attrs, hattrs⟩ := hbound
  obtain rfl := Signature.bindAttrs_rebind hbuilt (Operator.bind_eq_ok_iff.1 hattrs).2
    (Operator.bind_eq_ok_iff.1 hbind).2
  have hids : ((p.tracer.fresh types).map Symbol.id).length = n.outputs.length :=
    (List.length_map _).trans hlength
  rw [Tracer.declare_append h.capture]
  let m : Node α :=
    ⟨n.op, operands.map (·.map Symbol.id), n.attrs, (p.tracer.fresh types).map Symbol.id⟩
  let t : Tracer α := { p.tracer.declare types with nodes := p.tracer.nodes ++ [m] }
  have hop : m.op = n.op := rfl
  have hattrs : m.attrs = n.attrs := rfl
  have hinputs : t.inputs = p.tracer.inputs := rfl
  have hnodes : t.nodes = p.tracer.nodes ++ [m] := rfl
  obtain ⟨τ, htracer, hnew, hsame⟩ := h.tracer.call hclosed hreads hfresh hnodup hop hattrs
    (h.operandIds hoperands) hids.symm hinputs hnodes
  refine ⟨τ, h.capture, htracer, SymbolMap.fits_insertAll ?_ fun id s hs => ?_⟩
  · have hpairs : List.Forall₂ (fun id s => τ id = Symbol.id s) n.outputs
        (p.tracer.fresh types) := by
      change n.outputs.map τ = (p.tracer.fresh types).map Symbol.id at hnew
      rwa [← List.forall₂_eq_eq_eq, List.forall₂_map_left_iff, List.forall₂_map_right_iff] at hnew
    have hsame := hpairs.imp fun _ _ heq => heq.symm
    refine (List.forall₂_and_left n.outputs _).2 ⟨fun id hid => ?_, hsame⟩
    rw [List.flatMap_append, List.flatMap_singleton]
    exact List.mem_append_right _ (List.mem_append_right _ hid)
  · obtain ⟨hid, heq⟩ := h.symbols id s hs
    rw [List.flatMap_append, ← List.append_assoc]
    exact ⟨List.mem_append_left _ hid, heq.trans (hsame id hid).symm⟩

end Progress

namespace Replacer

variable {r : Replacer α} {p p' : Progress α} {index : Nat} {n : Node α} {nodes : List (Node α)}
  {s s' : Journaled (Decisions α)} {fragment : Fragment α} {fragments : List (Fragment α)}

/-- What has been reported stays reported. -/
theorem report_le_of_step {gradient : Bool}
    (h : (r.step gradient p index n).apply s = (.ok (p', fragment), s')) :
    p.report <+: p'.report := by
  cases hop : n.op with
  | kernel o =>
    rw [apply_step_kernel hop] at h
    obtain ⟨-, -, _, _, t, -, -, -, rfl⟩ := kernelStep_eq_ok_iff.1 (Prod.mk.inj h).1
    exact List.prefix_refl _
  | highLevel o =>
    obtain ⟨operands, record, rule, -, -, hdecided⟩ := exists_dispatch_of_step hop h
    obtain ⟨outputs, p₁, -, -, rfl⟩ := decidedStep_eq_ok_iff.1 hdecided
    exact List.prefix_append _ _

theorem report_le_of_steps {gradient : Bool}
    (h : (r.steps gradient p index nodes).apply s = (.ok (p', fragments), s')) :
    p.report <+: p'.report := by
  induction nodes generalizing p index s fragments with
  | nil =>
    obtain ⟨rfl, -⟩ := Prod.mk.inj (Except.ok.inj (Prod.mk.inj h).1)
    exact List.prefix_refl _
  | cons n nodes ih =>
    obtain ⟨p₁, fragment, s₁, rest, hstep, hrest, -⟩ := steps_cons_eq_ok_iff.1 h
    exact (report_le_of_step hstep).trans (ih hrest)

theorem outcomeOf_eq_fallback_iff {rule : Option (Rule α)} :
    outcomeOf rule = .fallback ↔ rule = none := by
  cases rule with
  | none => exact iff_of_true rfl rfl
  | some rule => exact iff_of_false nofun nofun

/-- A call that nothing replaces is made again. -/
theorem call_of_step (h : (r.step false p index n).apply s = (.ok (p', fragment), s'))
    (huntouched : p'.report.Untouched) : ∃ operands outputs t,
      p.operandsFor n = .ok operands ∧ outputs.length = n.outputs.length ∧
      (Tracer.call n.op operands n.attrs).apply p.tracer = (.ok outputs, t) ∧
      p' = ⟨t, p.symbols.insertAll n.outputs outputs, p'.report⟩ := by
  cases hop : n.op with
  | kernel o =>
    rw [apply_step_kernel hop] at h
    obtain ⟨-, -, operands, outputs, t, hoperands, hcall, hlength, rfl⟩ :=
      kernelStep_eq_ok_iff.1 (Prod.mk.inj h).1
    exact ⟨operands, outputs, t, hoperands, hlength, hcall, rfl⟩
  | highLevel o =>
    obtain ⟨operands, record, rule, hoperands, hdispatch, hdecided⟩ := exists_dispatch_of_step hop h
    obtain ⟨outputs, p₁, hreplacement, hlength, rfl⟩ := decidedStep_eq_ok_iff.1 hdecided
    obtain ⟨-, -, houtcome⟩ := record_of_dispatch hdispatch
    have hlast : record ∈ p.report ++ [record] := List.mem_append_right _ List.mem_cons_self
    obtain rfl : rule = none :=
      outcomeOf_eq_fallback_iff.1 (houtcome.symm.trans (huntouched record hlast))
    unfold replacement at hreplacement
    obtain ⟨⟨outputs', p₂⟩, houtputs, heq⟩ := bind_eq_ok_iff.1 hreplacement
    obtain ⟨rfl, -, rfl⟩ : outputs' = outputs ∧ ⟨[], []⟩ = fragment ∧ p₂ = p₁ := by
      simpa using heq
    obtain ⟨t, hcall, rfl⟩ := forwardOutputs_none_eq_ok_iff.1 houtputs
    exact ⟨operands, outputs', t, hoperands, hlength, hcall, rfl⟩

/-- When nothing is replaced, going through the source repeats it under other numbers. -/
theorem repeats_of_steps {σ : SymbolId → SymbolId} {symbols : List TensorType}
    {inputs : List SymbolId} {done : List (Node α)} (h : p.Repeats σ inputs done)
    (hclosed : Node.Closed inputs (done ++ nodes))
    (honce : (inputs ++ (done ++ nodes).flatMap (·.outputs)).Nodup)
    (htypable : Typable symbols nodes)
    (hsteps : (r.steps false p index nodes).apply s = (.ok (p', fragments), s'))
    (huntouched : p'.report.Untouched) : ∃ τ, p'.Repeats τ inputs (done ++ nodes) := by
  induction nodes generalizing p σ done index s fragments with
  | nil =>
    obtain ⟨rfl, -⟩ := Prod.mk.inj (Except.ok.inj (Prod.mk.inj hsteps).1)
    exact ⟨σ, (List.append_nil done).symm ▸ h⟩
  | cons n nodes ih =>
    obtain ⟨⟨⟨operandTypes, declared, hn⟩, hbuilt⟩, htypable⟩ := List.forall_mem_cons.1 htypable
    obtain ⟨p₁, fragment, s₁, rest, hstep, hrest, -⟩ := steps_cons_eq_ok_iff.1 hsteps
    obtain ⟨hdone, hrestClosed⟩ := (Node.closed_append inputs done (n :: nodes)).1 hclosed
    have hsplit : (done ++ n :: nodes).flatMap (·.outputs) =
        done.flatMap (·.outputs) ++ (n.outputs ++ nodes.flatMap (·.outputs)) := by
      rw [List.flatMap_append, List.flatMap_cons]
    obtain ⟨-, hown, hdisjoint⟩ := List.nodup_append.1 (List.append_assoc .. ▸ hsplit ▸ honce)
    have huntouched₁ : p₁.report.Untouched := fun record hrecord =>
      huntouched record ((report_le_of_steps hrest).subset hrecord)
    obtain ⟨operands, outputs, t, hoperands, hlength, hcall, hp₁⟩ := call_of_step hstep huntouched₁
    obtain ⟨τ, h₁⟩ := h.call hdone (Node.closed_cons.1 hrestClosed).1
      (fun id hid hknown => hdisjoint id hknown id (List.mem_append_left _ hid) rfl)
      (List.nodup_append.1 hown).1 hbuilt ⟨operandTypes, hn.bound⟩ hoperands hlength hcall p₁.report
    have hmore : done ++ n :: nodes = done ++ [n] ++ nodes := by
      rw [List.append_assoc, List.singleton_append]
    rw [← hp₁] at h₁
    rw [hmore] at hclosed honce ⊢
    exact ih h₁ hclosed honce htypable hrest

/-- A forward program of which nothing has been replaced computes what the source computes, and
fails where it fails. -/
theorem execute_of_fallback {id : TraceId} {source : Trace α} {x : Replaced α}
    (hsource : source.Recorded) (hbuilt : ∀ n ∈ source.nodes, n.op.operator.signature.Built)
    (h : (r.forward id source).apply s = (.ok x, s')) (huntouched : x.report.Untouched)
    {tensors : List (Tensor α)}
    (htensors : source.inputs.map source.typeOf? = tensors.map (some ·.type)) (verify : Bool) :
    x.trace.execute tensors verify = source.execute tensors verify := by
  obtain ⟨p₀, p, fragments, s₁, outputs, hstart, hsteps, houtputs, hfinish, hreport⟩ :=
    forward_eq_ok h
  have honce := hsource.nodup
  obtain ⟨σ, hbegun⟩ := Progress.repeats_start hstart (List.nodup_append.1 honce).1
  obtain ⟨τ, hrepeats⟩ := repeats_of_steps hbegun hsource.closed.1 honce (typable hsource hbuilt)
    hsteps (hreport ▸ huntouched)
  obtain ⟨hcapture, -, hx⟩ := Tracer.finish_eq_ok_iff.1 hfinish
  obtain ⟨t, outs, ht, hid, hfinish'⟩ := recorded_of_forward h
  have hcontinues : x.trace.Continues source τ [] [] [] := by
    refine ⟨?_, ?_, ?_, Trace.Recorded.nodup ⟨t, outs, ht, hfinish'⟩⟩
    · rw [hx, List.append_nil]
      exact hrepeats.tracer.inputs
    · rw [hx, List.append_nil]
      exact hrepeats.tracer.nodes
    · rw [hx, List.append_nil]
      exact hrepeats.symbolIds houtputs
  have hinterface := hasInterface_of_forward hsource hbuilt h
  have hmore : x.trace.inputs.map x.trace.typeOf? =
      (tensors ++ [] : List (Tensor α)).map (some ·.type) := by
    rw [hinterface.inputs, List.append_nil, ← htensors, hsource.hasInterface.inputs]
  rcases hcontinues.outputs_eq_append hsource.closed htensors hmore verify with
    ⟨e, hexecute, hexecute'⟩ | ⟨outs, hexecute, -, hsame⟩
  · rw [List.append_nil] at hexecute'
    rw [hexecute, hexecute']
  · have hexecute' := hsame rfl rfl
    rw [List.append_nil] at hexecute'
    rw [hexecute, hexecute']

end Replacer

end TraceSubstitution
