import Mathlib.Data.List.Count
import Mathlib.Data.List.ReduceOption
import TraceSubstitution.Proofs.Operator.Binding
import TraceSubstitution.Proofs.Trace.Recorded

/-!
# Single assignment

A client sees a tracer through the requests that it accepts: inputs and calls, each
answered with symbols. `Tracer.Accepts` keeps the list of these requests beside the
tracer. The symbols that have been handed out are the symbols of the tracer, each of
them once and in order (`Tracer.Accepts.handedOut_eq`), so a program that is finished
from it is in single-assignment form: `Trace.SingleAssignment` says what the program
has to do with the requests, and `Tracer.Accepts.singleAssignment` that it does.
-/

namespace TraceSubstitution

variable {α : Type}

/-- A high-level call binds its static arguments twice, which makes no difference. -/
theorem NodeOp.inferBound_of_inferTypes {op : NodeOp α} {types : List (Option TensorType)}
    {attrs bound : Attrs} {outputs : List TensorType}
    (hbound : op.operator.bind types attrs = .ok bound)
    (h : op.inferTypes types bound = .ok outputs) (hbuilt : op.operator.signature.Built) :
    op.operator.inferBound types bound = .ok outputs := by
  cases op with
  | kernel o => exact h
  | highLevel o =>
    obtain ⟨rebound, hrebound, hinferred⟩ := Operator.infer_eq_ok_iff.1 h
    obtain rfl := Signature.bindAttrs_rebind hbuilt (Operator.bind_eq_ok_iff.1 hbound).2
      (Operator.bind_eq_ok_iff.1 hrebound).2
    exact hinferred

/-- A call as a client made it, with the symbols it was answered with. -/
structure AcceptedCall (α : Type) where
  /-- What was called. -/
  op : NodeOp α
  /-- The operands, of which some may be absent. -/
  operands : List (Option Symbol)
  /-- The static arguments, before they are bound. -/
  attrs : Attrs
  /-- The symbols of the outputs. -/
  results : List Symbol

namespace AcceptedCall

/-- The types that the symbols of the operands carry. -/
def operandTypes (c : AcceptedCall α) : List (Option TensorType) :=
  c.operands.map (·.map Symbol.type)

/-- The node holds the call: its operands and outputs by number, its static arguments as they are
bound, and outputs of the types that are inferred from these. -/
structure Holds (c : AcceptedCall α) (n : Node α) : Prop where
  op : n.op = c.op
  inputs : n.inputs = c.operands.map (·.map Symbol.id)
  outputs : n.outputs = c.results.map Symbol.id
  bound : c.op.operator.bind c.operandTypes c.attrs = .ok n.attrs
  inferred : c.op.inferTypes c.operandTypes n.attrs = .ok (c.results.map Symbol.type)

end AcceptedCall

/-- A request that a tracer has accepted, with the symbols it was answered with. -/
inductive Accepted (α : Type) where
  /-- An input was declared. -/
  | input (s : Symbol)
  /-- A call was recorded. -/
  | call (c : AcceptedCall α)

namespace Accepted

/-- The symbols that the client gave. -/
def uses : Accepted α → List Symbol
  | input _ => []
  | call c => c.operands.reduceOption

/-- The symbols that the client was given. -/
def results : Accepted α → List Symbol
  | input s => [s]
  | call c => c.results

/-- The symbol of an input. -/
def input? : Accepted α → Option Symbol
  | input s => some s
  | call _ => none

/-- The call of a request, if it is one. -/
def call? : Accepted α → Option (AcceptedCall α)
  | input _ => none
  | call c => some c

/-- All symbols that the client was given, in order. -/
def handedOut (log : List (Accepted α)) : List Symbol := log.flatMap results

/-- The client gives back only what it has been given before: a symbol with its number, its trace
and its type. -/
def Ordered : List Symbol → List (Accepted α) → Prop
  | _, [] => True
  | given, e :: log => e.uses ⊆ given ∧ Ordered (given ++ e.results) log

theorem ordered_cons {given : List Symbol} {e : Accepted α} {log : List (Accepted α)} :
    Ordered given (e :: log) ↔ e.uses ⊆ given ∧ Ordered (given ++ e.results) log := Iff.rfl

theorem ordered_append : ∀ (given : List Symbol) (log more : List (Accepted α)),
    Ordered given (log ++ more) ↔
      Ordered given log ∧ Ordered (given ++ handedOut log) more
  | given, [], more => by simp [Ordered, handedOut]
  | given, e :: log, more => by
    rw [List.cons_append, ordered_cons, ordered_cons, ordered_append, and_assoc, handedOut,
      handedOut, List.flatMap_cons, List.append_assoc]

theorem ordered_singleton {given : List Symbol} {e : Accepted α} :
    Ordered given [e] ↔ e.uses ⊆ given := and_iff_left trivial

@[simp] theorem handedOut_append (log more : List (Accepted α)) :
    handedOut (log ++ more) = handedOut log ++ handedOut more := List.flatMap_append

@[simp] theorem handedOut_singleton (e : Accepted α) : handedOut [e] = e.results :=
  List.flatMap_singleton results e

end Accepted

/-- The program is made of the accepted requests, inputs and calls, and its outputs are the given
symbols; every number below the number of symbols is declared by one of them, and once. -/
structure Trace.SingleAssignment (p : Trace α) (owner : TraceId) (log : List (Accepted α))
    (outputs : List Symbol) : Prop where
  /-- The program has the identity of its tracer. -/
  id : p.id = owner
  /-- Every number is one input, or one output of one node. -/
  once : ∀ x : SymbolId, (p.inputs ++ p.nodes.flatMap (·.outputs)).count x =
    if x.index < p.symbols.length then 1 else 0
  /-- What a node reads and what is returned has been declared before. -/
  closed : p.Closed
  /-- The inputs are those that were accepted. -/
  inputs : p.inputs = (log.filterMap Accepted.input?).map Symbol.id
  /-- The nodes are the calls that were accepted. -/
  nodes : List.Forall₂ AcceptedCall.Holds (log.filterMap Accepted.call?) p.nodes
  /-- The symbols that were handed out are those of the program, with their types. -/
  handed : ∀ s ∈ Accepted.handedOut log, s.trace = owner ∧ p.typeOf? s.id = some s.type
  /-- The operands had been handed out when the calls were made. -/
  ordered : Accepted.Ordered [] log
  /-- The outputs had been handed out. -/
  outputs : p.outputs = outputs.map Symbol.id ∧ outputs ⊆ Accepted.handedOut log
  /-- The outputs of a node have the types that its operator infers. -/
  inferred : ∀ n ∈ p.nodes, n.op.operator.signature.Built → ∃ operandTypes outputTypes,
    n.inputs.map (·.map p.typeOf?) = operandTypes.map (·.map some) ∧
      n.outputs.map p.typeOf? = outputTypes.map some ∧
        n.op.operator.inferBound operandTypes n.attrs = .ok outputTypes

namespace Tracer

variable {t t' : Tracer α} {id : TraceId} {log : List (Accepted α)}

theorem fresh_append (t : Tracer α) (types more : List TensorType) :
    t.fresh (types ++ more) = t.fresh types ++ (t.declare types).fresh more := by
  induction types generalizing t with
  | nil => simp [declare]
  | cons type types ih =>
    have hdeclare : (t.declare [type]).declare types = t.declare (type :: types) := by
      simp [declare]
    rw [List.cons_append, fresh_cons, fresh_cons, ih, hdeclare, List.cons_append]

/-- Which symbols are fresh depends on the identity and the number of symbols only. -/
theorem fresh_congr (hid : t'.id = t.id) (hlength : t'.symbols.length = t.symbols.length)
    (types : List TensorType) : t'.fresh types = t.fresh types := by
  unfold fresh
  rw [hid, hlength]

/-- The tracer is what the accepted requests make of an empty one. -/
inductive Accepts (id : TraceId) : List (Accepted α) → Tracer α → Prop where
  | empty : Accepts id [] (.empty id)
  | input {log : List (Accepted α)} {t : Tracer α} (type : TensorType) : Accepts id log t →
      Accepts id (log ++ [.input (t.input type).1]) (t.input type).2
  | call {log : List (Accepted α)} {t t' : Tracer α} {op : NodeOp α}
    {operands : List (Option Symbol)} {attrs : Attrs} {results : List Symbol} :
      Accepts id log t → (Tracer.call op operands attrs).apply t = (.ok results, t') →
        Accepts id (log ++ [.call ⟨op, operands, attrs, results⟩]) t'

theorem Recorded.exists_accepts (h : t.Recorded) : ∃ log, Accepts t.id log t := by
  induction h with
  | empty id => exact ⟨[], .empty⟩
  | input type _ ih =>
    obtain ⟨log, hlog⟩ := ih
    exact ⟨_, hlog.input type⟩
  | call _ hcall ih =>
    obtain ⟨log, hlog⟩ := ih
    exact ⟨_, (extends_of_call hcall).id ▸ hlog.call hcall⟩

namespace Accepts

theorem recorded (h : Accepts id log t) : t.Recorded := by
  induction h with
  | empty => exact .empty id
  | input type _ ih => exact ih.input type
  | call _ hcall ih => exact ih.call hcall

theorem id_eq (h : Accepts id log t) : t.id = id := by
  induction h with
  | empty => rfl
  | input type _ ih => exact ih
  | call _ hcall ih => exact (extends_of_call hcall).id.trans ih

/-- The symbols that have been handed out are the symbols of the tracer. -/
theorem handedOut_eq (h : Accepts id log t) :
    Accepted.handedOut log = (Tracer.empty id : Tracer α).fresh t.symbols := by
  have hmore : ∀ {t : Tracer α}, t.id = id → ∀ types : List TensorType,
      (Tracer.empty id : Tracer α).fresh (t.symbols ++ types) =
        (Tracer.empty id : Tracer α).fresh t.symbols ++ t.fresh types := by
    intro t hid types
    rw [fresh_append, fresh_congr (t := t) (hid.symm : _ = t.id) ?_ types]
    exact congrArg List.length (List.nil_append t.symbols)
  induction h with
  | empty => rfl
  | @input log t type h ih =>
    rw [Accepted.handedOut_append, ih, Accepted.handedOut_singleton]
    exact (hmore h.id_eq [type]).symm
  | @call log t t' op operands attrs results h hcall ih =>
    obtain ⟨bound, types, -, -, -, rfl, rfl⟩ := call_eq_ok_iff.1 hcall
    rw [Accepted.handedOut_append, ih, Accepted.handedOut_singleton, symbols_append]
    exact (hmore h.id_eq types).symm

/-- A tracer takes back what it has handed out, and nothing else. -/
theorem owns_iff_mem (h : Accepts id log t) {s : Symbol} :
    t.owns s = true ↔ s ∈ Accepted.handedOut log := by
  rw [h.handedOut_eq, mem_fresh, owns_iff, h.id_eq]
  constructor
  · rintro ⟨htrace, hget⟩
    exact ⟨s.id.index, hget, htrace, congrArg SymbolId.mk (Nat.zero_add _).symm⟩
  · rintro ⟨i, hget, htrace, hid⟩
    have hindex : s.id.index = i := by
      rw [hid]
      exact Nat.zero_add i
    exact ⟨htrace, hindex ▸ hget⟩

theorem ordered (h : Accepts id log t) : Accepted.Ordered [] log := by
  induction h with
  | empty => trivial
  | input type h ih =>
    exact (Accepted.ordered_append _ _ _).2
      ⟨ih, Accepted.ordered_singleton.2 (List.nil_subset _)⟩
  | @call log t t' op operands attrs results h hcall ih =>
    obtain ⟨bound, types, -, -, howned, -, -⟩ := call_eq_ok_iff.1 hcall
    refine (Accepted.ordered_append _ _ _).2 ⟨ih, Accepted.ordered_singleton.2 fun s hs => ?_⟩
    exact h.owns_iff_mem.1 (howned s (List.reduceOption_mem_iff.1 hs))

theorem inputs_eq (h : Accepts id log t) :
    t.inputs = (log.filterMap Accepted.input?).map Symbol.id := by
  induction h with
  | empty => rfl
  | input type h ih =>
    rw [List.filterMap_append, List.map_append, ← ih]
    rfl
  | call h hcall ih =>
    rw [List.filterMap_append, List.map_append, ← ih, (extends_of_call hcall).inputs]
    exact (List.append_nil _).symm

/-- The nodes of the tracer hold the calls that it has accepted. -/
theorem nodes_hold (h : Accepts id log t) :
    List.Forall₂ AcceptedCall.Holds (log.filterMap Accepted.call?) t.nodes := by
  induction h with
  | empty => exact .nil
  | @input log t type h ih =>
    rw [List.filterMap_append]
    exact (List.append_nil (log.filterMap Accepted.call?)).symm ▸ ih
  | @call log t t' op operands attrs results h hcall ih =>
    obtain ⟨bound, types, hbound, htypes, -, rfl, rfl⟩ := call_eq_ok_iff.1 hcall
    rw [declare_append h.recorded.capture_eq_none, List.filterMap_append]
    refine List.rel_append ih (.cons ⟨rfl, rfl, rfl, hbound, ?_⟩ .nil)
    rw [map_type_fresh]
    exact htypes

/-- What the inputs and the nodes declare is what has been handed out. -/
theorem known_perm (h : Accepts id log t) :
    t.known.Perm ((Accepted.handedOut log).map Symbol.id) := by
  induction h with
  | empty => exact .nil
  | @input log t type h ih =>
    have hswap : (t.input type).2.known.Perm (t.known ++ [t.nextId]) := by
      unfold known
      rw [List.append_assoc t.inputs]
      change (t.inputs ++ [t.nextId] ++ t.nodes.flatMap (·.outputs)).Perm _
      rw [List.append_assoc t.inputs]
      exact List.perm_append_comm.append_left t.inputs
    rw [Accepted.handedOut_append, List.map_append]
    exact hswap.trans (ih.append_right [t.nextId])
  | @call log t t' op operands attrs results h hcall ih =>
    obtain ⟨bound, types, -, -, -, rfl, rfl⟩ := call_eq_ok_iff.1 hcall
    rw [declare_append h.recorded.capture_eq_none, Accepted.handedOut_append, List.map_append]
    rw [Accepted.handedOut_singleton]
    simp only [known, List.flatMap_append, List.flatMap_singleton, ← List.append_assoc]
    exact ih.append_right ((t.fresh types).map Symbol.id)

/-- Every number is declared once. -/
theorem count_known (h : Accepts id log t) (x : SymbolId) :
    t.known.count x = if x.index < t.symbols.length then 1 else 0 := by
  have hnodup : t.known.Nodup := by
    rw [h.known_perm.nodup_iff, h.handedOut_eq]
    exact nodup_map_id_fresh _
  split
  · next hlt => exact List.count_eq_one_of_mem hnodup (h.recorded.mem_known x hlt)
  · next hge =>
    refine List.count_eq_zero_of_not_mem fun hmem => hge ?_
    rw [h.known_perm.mem_iff, List.mem_map] at hmem
    obtain ⟨s, hs, rfl⟩ := hmem
    exact index_lt_of_owns (h.owns_iff_mem.2 hs)

/-- A program that is finished is in single-assignment form. -/
theorem singleAssignment (h : Accepts id log t) {outputs : List Symbol} {p : Trace α}
    (hfinish : t.finish outputs = .ok p) : p.SingleAssignment id log outputs := by
  have hclosed : p.Closed := Trace.Recorded.closed ⟨t, outputs, h.recorded, hfinish⟩
  obtain ⟨-, howned, rfl⟩ := finish_eq_ok_iff.1 hfinish
  refine ⟨h.id_eq, h.count_known, hclosed, h.inputs_eq, h.nodes_hold, fun s hs => ?_, h.ordered,
    ⟨rfl, fun s hs => h.owns_iff_mem.1 (howned s hs)⟩, fun n hn hbuilt => ?_⟩
  · obtain ⟨htrace, hget⟩ := owns_iff.1 (h.owns_iff_mem.2 hs)
    exact ⟨htrace.trans h.id_eq, hget⟩
  · obtain ⟨operands, outputs, htyped⟩ := h.recorded.typed n hn
    obtain ⟨attrs, hbound⟩ := htyped.bound
    exact ⟨operands, outputs, htyped.inputTypes, htyped.outputTypes,
      NodeOp.inferBound_of_inferTypes hbound htyped.inferred hbuilt⟩

end Accepts

end Tracer

end TraceSubstitution
