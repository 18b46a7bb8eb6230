import TraceSubstitution.Core
import TraceSubstitution.Proofs.Trace.Recording
import TraceSubstitution.Scalar.Single

/-!
# Recorded programs

`Tracer.Recorded` are the programs that inputs and calls build up from an empty
one, and `Trace.Recorded` are those of them that have been finished. Their calls
are typed: the static arguments are bound, and the outputs have the types that
are inferred from those of the operands. They are also closed: a call uses inputs
and outputs of earlier calls only.
-/

namespace TraceSubstitution

variable {α : Type}

/-- A call with operands and outputs of the given types in a program with the given symbols. -/
structure Node.Typed (symbols : List TensorType) (n : Node α)
    (operands : List (Option TensorType)) (outputs : List TensorType) : Prop where
  inputTypes : n.inputs.map (·.map fun id => symbols[id.index]?) = operands.map (·.map some)
  outputTypes : n.outputs.map (fun id => symbols[id.index]?) = outputs.map some
  bound : ∃ attrs, n.op.operator.bind operands attrs = .ok n.attrs
  inferred : n.op.inferTypes operands n.attrs = .ok outputs

/-- Every call uses symbols only that are known already or are outputs of earlier calls. -/
def Node.Closed : List SymbolId → List (Node α) → Prop
  | _, [] => True
  | known, n :: nodes => (∀ id, some id ∈ n.inputs → id ∈ known) ∧
      Closed (known ++ n.outputs) nodes

/-- Every call of a program, and every output, uses inputs and outputs of earlier calls only. -/
def Trace.Closed (p : Trace α) : Prop :=
  Node.Closed p.inputs p.nodes ∧ ∀ id ∈ p.outputs, id ∈ p.inputs ++ p.nodes.flatMap (·.outputs)

namespace Node

@[simp] theorem closed_nil (known : List SymbolId) : Closed known ([] : List (Node α)) := trivial

theorem closed_cons {known : List SymbolId} {n : Node α} {nodes : List (Node α)} :
    Closed known (n :: nodes) ↔ (∀ id, some id ∈ n.inputs → id ∈ known) ∧
      Closed (known ++ n.outputs) nodes := Iff.rfl

theorem closed_append : ∀ (known : List SymbolId) (nodes more : List (Node α)),
    Closed known (nodes ++ more) ↔
      Closed known nodes ∧ Closed (known ++ nodes.flatMap (·.outputs)) more
  | known, [], more => by simp
  | known, n :: nodes, more => by
    have ih := closed_append (known ++ n.outputs) nodes more
    rw [List.cons_append, closed_cons, closed_cons, ih, and_assoc, List.flatMap_cons,
      List.append_assoc]

theorem Closed.mono : ∀ {known known' : List SymbolId} {nodes : List (Node α)},
    Closed known nodes → known ⊆ known' → Closed known' nodes
  | _, _, [], _, _ => trivial
  | _, _, n :: _, h, hsub => by
    obtain ⟨hn, hnodes⟩ := closed_cons.1 h
    refine closed_cons.2 ⟨fun id hid => hsub (hn id hid), hnodes.mono ?_⟩
    exact List.append_subset.2 ⟨fun id hid => List.mem_append_left n.outputs (hsub hid),
      List.subset_append_right _ n.outputs⟩

theorem closed_singleton {known : List SymbolId} {n : Node α} :
    Closed known [n] ↔ ∀ id, some id ∈ n.inputs → id ∈ known := by
  simp [closed_cons]

theorem getElem?_of_le {symbols symbols' : List TensorType} (hle : symbols <+: symbols')
    {id : SymbolId} {type : TensorType} (hid : symbols[id.index]? = some type) :
    symbols'[id.index]? = some type := by
  obtain ⟨hlt, -⟩ := List.getElem?_eq_some_iff.1 hid
  obtain ⟨more, rfl⟩ := hle
  rw [List.getElem?_append_left hlt, hid]

/-- Symbols keep their types when there are more. -/
theorem map_getElem?_of_le {symbols symbols' : List TensorType} (hle : symbols <+: symbols')
    {ids : List SymbolId} {types : List TensorType}
    (hids : ids.map (fun id => symbols[id.index]?) = types.map some) :
    ids.map (fun id => symbols'[id.index]?) = types.map some := by
  rw [← hids, List.map_inj_left]
  intro id hid
  have hmem : symbols[id.index]? ∈ types.map some := hids ▸ List.mem_map.2 ⟨id, hid, rfl⟩
  obtain ⟨type, -, htype⟩ := List.mem_map.1 hmem
  rw [← htype, getElem?_of_le hle htype.symm]

/-- A call keeps its types when there are more symbols. -/
theorem Typed.mono {symbols symbols' : List TensorType} {n : Node α}
    {operands : List (Option TensorType)} {outputs : List TensorType}
    (h : n.Typed symbols operands outputs) (hle : symbols <+: symbols') :
    n.Typed symbols' operands outputs := by
  refine ⟨?_, map_getElem?_of_le hle h.outputTypes, h.bound, h.inferred⟩
  rw [← h.inputTypes, List.map_inj_left]
  intro x hx
  cases x with
  | none => rfl
  | some id =>
    have hmem : some symbols[id.index]? ∈ operands.map (·.map some) :=
      h.inputTypes ▸ List.mem_map.2 ⟨some id, hx, rfl⟩
    obtain ⟨y, -, hy⟩ := List.mem_map.1 hmem
    obtain ⟨type, rfl, htype⟩ := Option.map_eq_some_iff.1 hy
    rw [Option.map_some, Option.map_some, ← htype, getElem?_of_le hle htype.symm]

end Node

namespace Tracer

variable {t t' : Tracer α}

/-- The programs in the making that inputs and calls lead to. -/
inductive Recorded : Tracer α → Prop where
  | empty (id : TraceId) : Recorded (.empty id)
  | input {t : Tracer α} (type : TensorType) : Recorded t → Recorded (t.input type).2
  | call {t t' : Tracer α} {op : NodeOp α} {operands : List (Option Symbol)} {attrs : Attrs}
    {results : List Symbol} : Recorded t →
      (call op operands attrs).apply t = (.ok results, t') → Recorded t'

/-- The symbols that have a value when the inputs have one. -/
def known (t : Tracer α) : List SymbolId := t.inputs ++ t.nodes.flatMap (·.outputs)

theorem map_getElem?_fresh (types : List TensorType) :
    (t.fresh types).map (fun s => (t.symbols ++ types)[s.id.index]?) = types.map some := by
  apply List.ext_getElem
  · simp
  · intro i hi hi'
    have hlt : i < types.length := by simpa using hi'
    simp [fresh, hlt]

/-- What a call records is typed. -/
theorem typed_of_owns {op : NodeOp α} {operands : List (Option Symbol)} {attrs bound : Attrs}
    {types : List TensorType}
    (hbound : op.operator.bind (operands.map (·.map Symbol.type)) attrs = .ok bound)
    (htypes : op.inferTypes (operands.map (·.map Symbol.type)) bound = .ok types)
    (howned : ∀ s, some s ∈ operands → t.owns s = true) :
    Node.Typed (t.symbols ++ types)
      ⟨op, operands.map (·.map Symbol.id), bound, (t.fresh types).map Symbol.id⟩
      (operands.map (·.map Symbol.type)) types where
  inputTypes := by
    simp only [List.map_map]
    rw [List.map_inj_left]
    intro x hx
    cases x with
    | none => rfl
    | some s =>
      obtain ⟨-, hget⟩ := owns_iff.1 (howned s hx)
      obtain ⟨hlt, -⟩ := List.getElem?_eq_some_iff.1 hget
      simp [List.getElem?_append_left hlt, hget]
  outputTypes := by
    rw [List.map_map]
    exact map_getElem?_fresh types
  bound := ⟨attrs, hbound⟩
  inferred := htypes

namespace Recorded

theorem capture_eq_none (h : t.Recorded) : t.capture = none := by
  induction h with
  | empty => rfl
  | input type _ ih => exact ih
  | call _ hcall ih =>
    have hsome := (extends_of_call hcall).capture
    rw [ih] at hsome
    exact Option.isSome_eq_false_iff.1 hsome |> Option.isNone_iff_eq_none.1

/-- Recorded calls are typed. -/
theorem typed (h : t.Recorded) :
    ∀ n ∈ t.nodes, ∃ operands outputs, n.Typed t.symbols operands outputs := by
  induction h with
  | empty => exact nofun
  | @input t type _ ih =>
    intro n hn
    obtain ⟨operands, outputs, htyped⟩ := ih n hn
    exact ⟨operands, outputs, htyped.mono (List.prefix_append t.symbols [type])⟩
  | @call t t' op operands attrs results hrec hcall ih =>
    obtain ⟨bound, types, hbound, htypes, howned, -, rfl⟩ := call_eq_ok_iff.1 hcall
    rw [declare_append hrec.capture_eq_none]
    intro n hn
    rcases List.mem_append.1 hn with hn | hn
    · obtain ⟨xs, ys, htyped⟩ := ih n hn
      exact ⟨xs, ys, htyped.mono (List.prefix_append t.symbols types)⟩
    · obtain rfl := List.mem_singleton.1 hn
      exact ⟨_, types, typed_of_owns hbound htypes howned⟩

/-- Every symbol of a recorded program is an input or an output of a call. -/
theorem mem_known (h : t.Recorded) : ∀ id : SymbolId, id.index < t.symbols.length →
    id ∈ t.known := by
  induction h with
  | empty => exact nofun
  | @input t type _ ih =>
    intro id hid
    rcases Nat.lt_or_ge id.index t.symbols.length with hlt | hge
    · rcases List.mem_append.1 (ih id hlt) with hmem | hmem
      · exact List.mem_append_left _ (List.mem_append_left _ hmem)
      · exact List.mem_append_right _ hmem
    · have hlength : id.index < (t.symbols ++ [type]).length := hid
      rw [List.length_append, List.length_singleton] at hlength
      have heq : id = t.nextId :=
        congrArg SymbolId.mk (Nat.le_antisymm (Nat.le_of_lt_succ hlength) hge)
      exact List.mem_append_left _ (List.mem_append_right _ (List.mem_singleton.2 heq))
  | @call t t' op operands attrs results hrec hcall ih =>
    obtain ⟨bound, types, -, -, -, -, rfl⟩ := call_eq_ok_iff.1 hcall
    intro id hid
    rw [declare_append hrec.capture_eq_none] at hid ⊢
    simp only [known, List.flatMap_append, List.flatMap_singleton, ← List.append_assoc]
    rcases Nat.lt_or_ge id.index t.symbols.length with hlt | hge
    · exact List.mem_append_left _ (ih id hlt)
    · refine List.mem_append_right _ ?_
      have hlength : id.index < (t.symbols ++ types).length := hid
      rw [List.length_append] at hlength
      rw [map_id_fresh, List.mem_map]
      exact ⟨id.index - t.symbols.length, List.mem_range.2 (by omega),
        congrArg SymbolId.mk (Nat.add_sub_cancel' hge)⟩

theorem index_lt_of_mem_inputs (h : t.Recorded) :
    ∀ id ∈ t.inputs, id.index < t.symbols.length := by
  induction h with
  | empty => exact fun id hid => absurd hid List.not_mem_nil
  | @input t type _ ih =>
    intro id hid
    have hlength : (t.input type).2.symbols.length = t.symbols.length + 1 := List.length_append
    rw [hlength]
    rcases List.mem_append.1 hid with hid | hid
    · exact Nat.lt_succ_of_lt (ih id hid)
    · rw [List.mem_singleton.1 hid]
      exact Nat.lt_succ_self _
  | @call t t' op operands attrs results hrec hcall ih =>
    intro id hid
    have hextends := extends_of_call hcall
    exact Nat.lt_of_lt_of_le (ih id (hextends.inputs ▸ hid)) hextends.symbols.length_le

/-- Recorded programs are closed. -/
theorem closed (h : t.Recorded) : Node.Closed t.inputs t.nodes := by
  induction h with
  | empty => trivial
  | @input t type _ ih => exact ih.mono (List.subset_append_left t.inputs [t.nextId])
  | @call t t' op operands attrs results hrec hcall ih =>
    obtain ⟨bound, types, -, -, howned, -, rfl⟩ := call_eq_ok_iff.1 hcall
    rw [declare_append hrec.capture_eq_none]
    refine (Node.closed_append _ _ _).2 ⟨ih, Node.closed_singleton.2 ?_⟩
    intro id hid
    obtain ⟨x, hx, hsome⟩ := List.mem_map.1 hid
    obtain ⟨s, rfl, rfl⟩ := Option.map_eq_some_iff.1 hsome
    exact hrec.mem_known s.id (index_lt_of_owns (howned s hx))

end Recorded

theorem finish_eq_ok_iff {outputs : List Symbol} {p : Trace α} :
    t.finish outputs = .ok p ↔ t.capture = none ∧ (∀ s ∈ outputs, t.owns s = true) ∧
      p = ⟨t.id, t.symbols, t.inputs, t.nodes, outputs.map Symbol.id⟩ := by
  unfold finish
  rw [check_bind_eq_ok_iff, check_bind_eq_ok_iff, ensure_eq_ok_iff, checkAll_eq_ok_iff,
    Option.isNone_iff_eq_none, pure_eq_ok, Except.ok.injEq, eq_comm (a := p)]

end Tracer

/-- The programs that inputs and calls lead to when they are finished. -/
def Trace.Recorded (p : Trace α) : Prop :=
  ∃ t : Tracer α, ∃ outputs, t.Recorded ∧ t.finish outputs = .ok p

namespace Trace.Recorded

variable {p : Trace α}

theorem typed (h : p.Recorded) :
    ∀ n ∈ p.nodes, ∃ operands outputs, n.Typed p.symbols operands outputs := by
  obtain ⟨t, outputs, ht, hfinish⟩ := h
  obtain ⟨-, -, rfl⟩ := Tracer.finish_eq_ok_iff.1 hfinish
  exact ht.typed

/-- The inputs have types. -/
theorem exists_inputTypes (h : p.Recorded) :
    ∃ types : List TensorType, p.inputs.map p.typeOf? = types.map some := by
  obtain ⟨t, outputs, ht, hfinish⟩ := h
  obtain ⟨-, -, rfl⟩ := Tracer.finish_eq_ok_iff.1 hfinish
  have hall := ht.index_lt_of_mem_inputs
  change ∃ types : List TensorType, t.inputs.map (fun id => t.symbols[id.index]?) = types.map some
  revert hall
  generalize t.inputs = inputs
  intro hall
  induction inputs with
  | nil => exact ⟨[], rfl⟩
  | cons id inputs ih =>
    obtain ⟨hid, hall⟩ := List.forall_mem_cons.1 hall
    obtain ⟨types, htypes⟩ := ih hall
    refine ⟨t.symbols[id.index] :: types, ?_⟩
    rw [List.map_cons, List.map_cons, htypes, List.getElem?_eq_getElem hid]

theorem closed (h : p.Recorded) : p.Closed := by
  obtain ⟨t, outputs, ht, hfinish⟩ := h
  obtain ⟨-, howned, rfl⟩ := Tracer.finish_eq_ok_iff.1 hfinish
  refine ⟨ht.closed, ?_⟩
  intro id hid
  obtain ⟨s, hs, rfl⟩ := List.mem_map.1 hid
  exact ht.mem_known s.id (Tracer.index_lt_of_owns (howned s hs))

end Trace.Recorded

/-- One number in single precision. -/
def oneNumber : TensorType := ⟨⟨[1]⟩, .f32, ⟨.cpu, 0⟩⟩

/-- Two numbers in single precision. -/
def twoNumbers : TensorType := ⟨⟨[2]⟩, .f32, ⟨.cpu, 0⟩⟩

/-- The program that adds its input to itself. -/
def doubling : Trace Float32 where
  id := ⟨0⟩
  symbols := [oneNumber, oneNumber]
  inputs := [⟨0⟩]
  nodes := [⟨.highLevel Core.add, [some ⟨0⟩, some ⟨0⟩], .empty, [⟨1⟩]⟩]
  outputs := [⟨1⟩]

theorem recorded_doubling : doubling.Recorded := by
  have hinput : Tracer.Recorded ((Tracer.empty ⟨0⟩ : Tracer Float32).input oneNumber).2 :=
    .input oneNumber (.empty ⟨0⟩)
  have hcall : (Tracer.call (.highLevel Core.add)
      [some ⟨⟨0⟩, ⟨0⟩, oneNumber⟩, some ⟨⟨0⟩, ⟨0⟩, oneNumber⟩] .empty).apply
        ((Tracer.empty ⟨0⟩ : Tracer Float32).input oneNumber).2 =
      (.ok [⟨⟨0⟩, ⟨1⟩, oneNumber⟩],
        ⟨⟨0⟩, doubling.symbols, doubling.inputs, doubling.nodes, none⟩) := rfl
  exact ⟨_, [⟨⟨0⟩, ⟨1⟩, oneNumber⟩], hinput.call hcall, rfl⟩

end TraceSubstitution
