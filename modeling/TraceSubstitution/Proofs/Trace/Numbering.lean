import TraceSubstitution.Proofs.Trace.Renumbering
import TraceSubstitution.Proofs.Trace.SingleAssignment

/-!
# Programs numbered in order

The symbols of a program get their values in an order: first the inputs, then the
outputs of one call after the other. `Trace.numbered` is the program in which this
order is that of the numbers. A program that has this numbering already
(`Trace.Numbered`) does not change.

A tracer whose inputs are declared before all calls numbers its symbols in order, and
so does one that goes on with calls from there (`Tracer.Numbered.run`).
-/

namespace TraceSubstitution

variable {α : Type}

namespace Trace

variable {p : Trace α}

/-- The symbols in the order in which they get their values. -/
def order (p : Trace α) : List SymbolId := p.inputs ++ p.nodes.flatMap (·.outputs)

/-- The number that a symbol has by its place in the order. -/
def place (p : Trace α) (id : SymbolId) : SymbolId := ⟨p.order.idxOf id⟩

/-- The program with its symbols numbered in order: first the inputs, then the outputs of all
calls. -/
def numbered (p : Trace α) (id : TraceId) : Trace α where
  id := id
  symbols := p.order.filterMap p.typeOf?
  inputs := p.inputs.map p.place
  nodes := p.nodes.map (·.renumber p.place)
  outputs := p.outputs.map p.place

/-- The symbols are numbered in order. -/
def Numbered (p : Trace α) : Prop := p.order = (List.range p.symbols.length).map SymbolId.mk

theorem place_of_mem {known more : List SymbolId} (horder : p.order = known ++ more)
    {id : SymbolId} (hid : id ∈ known) : p.place id = ⟨known.idxOf id⟩ := by
  unfold place
  rw [horder, List.idxOf_append_of_mem hid]

/-- Symbols that come one after the other have consecutive numbers. -/
theorem map_place (honce : p.order.Nodup) {known ids more : List SymbolId}
    (horder : p.order = known ++ ids ++ more) :
    ids.map p.place = (List.range ids.length).map fun i => (⟨known.length + i⟩ : SymbolId) := by
  rw [horder] at honce
  obtain ⟨-, hids, hdisjoint⟩ := List.nodup_append.1 (List.nodup_append.1 honce).1
  apply List.ext_getElem
  · simp
  · intro i hi hi'
    have hlt : i < ids.length := by simpa using hi
    have hmem : ids[i] ∈ ids := List.getElem_mem hlt
    have hnot : ids[i] ∉ known := fun hknown => hdisjoint _ hknown _ hmem rfl
    rw [List.getElem_map, List.getElem_map, List.getElem_range,
      place_of_mem horder (List.mem_append_right known hmem), List.idxOf_append_of_notMem hnot,
      hids.idxOf_getElem i hlt]

theorem Numbered.place_eq (h : p.Numbered) {id : SymbolId} (hid : id ∈ p.order) :
    p.place id = id := by
  unfold place
  rw [h] at hid ⊢
  obtain ⟨i, hi, rfl⟩ := List.mem_map.1 hid
  have hnodup : ((List.range p.symbols.length).map SymbolId.mk).Nodup :=
    List.nodup_range.map fun i j hij => (SymbolId.mk.inj hij)
  have hlt : i < ((List.range p.symbols.length).map SymbolId.mk).length := by simpa using hi
  have hget : ((List.range p.symbols.length).map SymbolId.mk)[i] = ⟨i⟩ := by simp
  rw [← hget, hnodup.idxOf_getElem i hlt]
  exact hget.symm

/-- A program that is numbered in order stays as it is. -/
theorem Numbered.numbered_eq (h : p.Numbered) (hclosed : p.Closed) (id : TraceId) :
    p.numbered id = { p with id := id } := by
  have hsymbols : p.order.filterMap p.typeOf? = p.symbols := by
    have hall : p.order.map p.typeOf? = p.symbols.map some := by
      rw [h, List.map_map]
      apply List.ext_getElem
      · simp
      · intro i hi hi'
        have hlt : i < p.symbols.length := by simpa using hi'
        simp [typeOf?, hlt]
    have hids := congrArg (List.filterMap fun y => y) hall
    rw [List.filterMap_map, List.filterMap_map] at hids
    exact hids.trans List.filterMap_some
  have hids : ∀ ids : List SymbolId, ids ⊆ p.order → ids.map p.place = ids := fun ids hsub =>
    (List.map_congr_left fun id hid => h.place_eq (hsub hid)).trans (List.map_id ids)
  have hnodes : p.nodes.map (·.renumber p.place) = p.nodes := by
    rw [hclosed.1.map_renumber_congr fun id hid => h.place_eq hid]
    refine (List.map_congr_left fun n _ => ?_).trans (List.map_id p.nodes)
    simp [Node.renumber]
  unfold numbered
  rw [hsymbols, hids _ (List.subset_append_left _ _), hnodes, hids _ hclosed.2]

end Trace

namespace Tracer

variable {t t' : Tracer α}

/-- The symbols are numbered in the order in which they get their values. -/
def Numbered (t : Tracer α) : Prop := t.known = (List.range t.symbols.length).map SymbolId.mk

theorem numbered_addInputs_empty (id : TraceId) (types : List TensorType) :
    ((Tracer.empty id : Tracer α).addInputs types).Numbered := by
  unfold Numbered known
  change ([] ++ ((empty id : Tracer α).fresh types).map Symbol.id) ++ [] =
    (List.range ([] ++ types).length).map SymbolId.mk
  rw [List.append_nil, List.nil_append, List.nil_append, map_id_fresh]
  exact List.map_congr_left fun i _ => congrArg SymbolId.mk (Nat.zero_add i)

/-- The outputs of a call get the next numbers. -/
theorem Numbered.call (h : t.Numbered) (ht : t.capture = none) {op : NodeOp α}
    {operands : List (Option Symbol)} {attrs : Attrs} {results : List Symbol}
    (hcall : (call op operands attrs).apply t = (.ok results, t')) : t'.Numbered := by
  obtain ⟨bound, types, -, -, -, -, rfl⟩ := call_eq_ok_iff.1 hcall
  rw [declare_append ht]
  unfold Numbered known at h ⊢
  simp only [List.flatMap_append, List.flatMap_singleton, ← List.append_assoc]
  rw [h, map_id_fresh, List.length_append, List.range_add, List.map_append, List.map_map]
  rfl

/-- Outside a capture a run only makes calls. -/
theorem Numbered.run (h : t.Numbered) (ht : t.capture = none) {β : Type} {r : Recipe α β} {b : β}
    (hrun : r.run.apply t = (.ok b, t')) : t'.Numbered ∧ t'.capture = none := by
  refine Recipe.keeps_of_run (P := fun t => t.Numbered ∧ t.capture = none)
    (fun t t' op operands attrs results ht hcall => ⟨ht.1.call ht.2 hcall, ?_⟩)
    (fun t t' primal gradient ht hincoming => ?_)
    (fun t t' target contribution ht haccumulate => ?_) ⟨h, ht⟩ hrun
  · have hsome := (extends_of_call hcall).capture
    rw [ht.2] at hsome
    exact Option.not_isSome_iff_eq_none.1 (by simp [hsome])
  · obtain ⟨-, c, hc, -⟩ := incomingGradient_eq_ok_iff.1 hincoming
    exact nomatch ht.2.symm.trans hc
  · obtain ⟨-, -, -, c, hc, -⟩ := accumulateGradient_eq_ok_iff.1 haccumulate
    exact nomatch ht.2.symm.trans hc

theorem numbered_of_finish (h : t.Numbered) {outputs : List Symbol} {p : Trace α}
    (hfinish : t.finish outputs = .ok p) : p.Numbered := by
  obtain ⟨-, -, rfl⟩ := finish_eq_ok_iff.1 hfinish
  exact h

end Tracer

end TraceSubstitution
