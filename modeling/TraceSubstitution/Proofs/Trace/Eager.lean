import TraceSubstitution.Proofs.Trace.SingleAssignment
import TraceSubstitution.Proofs.Trace.Values

/-!
# Tracing a program and running it at once

A straight-line `Program` declares inputs and makes calls; operands and outputs are
named by their positions among all values so far. It can be traced, which records
the calls with their static arguments bound, or run at once on tensors, with the
static arguments as they are written.

The trace does what the program does (`Program.run_trace`): it makes the same calls
in the same order, up to the same one that fails, and it returns the same tensors or
fails in the same way. The bound static arguments are bound to themselves when the
trace runs, and no symbol gets a value twice.
-/

namespace TraceSubstitution

/-- A step of a straight-line program. An operand of a call may be absent. -/
inductive Instruction (α : Type) where
  /-- Declares an input. -/
  | input (type : TensorType)
  /-- Calls an operator on values so far; each result is one more value. -/
  | call (op : NodeOp α) (operands : List (Option Nat)) (attrs : Attrs)

/-- A straight-line program. -/
structure Program (α : Type) where
  /-- The steps, in order. -/
  steps : List (Instruction α)
  /-- The outputs, by their positions among the values. -/
  outputs : List Nat

/-- The values of a program that is run at once. -/
structure Eager (α : Type) where
  /-- The values so far. -/
  values : List (Tensor α)
  /-- The tensors for the inputs that have not been declared yet. -/
  supplied : List (Tensor α)

section Lookup

variable {β : Type}

/-- The value at a position. -/
def valueAt (values : List β) (i : Nat) : Except Failure β := orPanic .outOfBounds values[i]?

/-- The operand at a position, which may be absent. -/
def operandAt (values : List β) : Option Nat → Except Failure (Option β)
  | some i => (valueAt values i).map some
  | none => .ok none

theorem valueAt_eq_ok_iff {values : List β} {i : Nat} {x : β} :
    valueAt values i = .ok x ↔ values[i]? = some x := orPanic_eq_ok_iff

end Lookup

variable {α : Type}

namespace Instruction

/-- Traces a step; returns the symbols of all values. -/
def trace (symbols : List Symbol) : Instruction α → Act (Tracer α) (List Symbol)
  | input type => do
    let (s, t) := (← get).input type
    set t
    return symbols ++ [s]
  | call op operands attrs => do
    let operands ← Act.lift (operands.mapM (operandAt symbols))
    return symbols ++ (← Tracer.call op operands attrs)

/-- Runs a step at once, and writes a call to the journal. -/
def run (s : Eager α) : Instruction α → Act Journal (Eager α)
  | input _ =>
    match s.supplied with
    | x :: supplied => return ⟨s.values ++ [x], supplied⟩
    | [] => Act.lift (.error (.panic .outOfBounds))
  | call op operands attrs => do
    let operands ← Act.lift (operands.mapM (operandAt s.values))
    modify (· ++ [Trace.executing op])
    let results ← Act.lift (op.operator.execute operands attrs)
    return { s with values := s.values ++ results }

/-- The signature of the operator that is called is proper. -/
def Proper : Instruction α → Prop
  | input _ => True
  | call op _ _ => op.operator.signature.Proper

/-- If the implementation returns, it gives as many results as the operator infers for the symbols
that the step is traced on. -/
def Counts (symbols : List Symbol) (values : List (Tensor α)) : Instruction α → Prop
  | input _ => True
  | call op operands attrs => ∀ traced xs types results,
    operands.mapM (operandAt symbols) = .ok traced → operands.mapM (operandAt values) = .ok xs →
      op.operator.infer (traced.map (·.map Symbol.type)) attrs = .ok types →
        op.operator.execute xs attrs = .ok results → results.length = types.length

/-- While steps are traced and run side by side, all implementations that return give as many
results as their operators infer. -/
def CountAlong : List (Instruction α) → List Symbol → Tracer α → Eager α → Prop
  | [], _, _, _ => True
  | step :: steps, symbols, t, s => step.Counts symbols s.values ∧
    ∀ symbols' t' s' j j', (step.trace symbols).apply t = (.ok symbols', t') →
      (step.run s).apply j = (.ok s', j') → CountAlong steps symbols' t' s'

end Instruction

namespace Program

/-- Traces the program. -/
def trace (p : Program α) (id : TraceId) : Except Failure (Trace α) := do
  let (symbols, t) ← (p.steps.foldlM Instruction.trace []).outcome (.empty id)
  let outputs ← p.outputs.mapM (valueAt symbols)
  t.finish outputs

/-- Runs the program at once, and writes the calls to the journal. -/
def run (p : Program α) (tensors : List (Tensor α)) : Act Journal (List (Tensor α)) := do
  let s ← p.steps.foldlM Instruction.run ⟨[], tensors⟩
  Act.lift (p.outputs.mapM (valueAt s.values))

/-- The outputs of the program when it is run at once. -/
def execute (p : Program α) (tensors : List (Tensor α)) : Except Failure (List (Tensor α)) :=
  ((p.run tensors).apply []).1

/-- All signatures are proper: names of static arguments are distinct, and defaults are of their
declared kinds. -/
def Proper (p : Program α) : Prop := ∀ step ∈ p.steps, step.Proper

/-- On these tensors, all implementations that return give as many results as their operators
infer when the program is traced. -/
def Counts (p : Program α) (id : TraceId) (tensors : List (Tensor α)) : Prop :=
  Instruction.CountAlong p.steps [] (.empty id) ⟨[], tensors⟩

end Program

/-- The symbols have the given values. -/
def SymbolMap.Holds (m : SymbolMap (Tensor α)) (symbols : List Symbol) (values : List (Tensor α)) :
    Prop := symbols.map (fun s => m.get? s.id) = values.map some

namespace SymbolMap.Holds

variable {m : SymbolMap (Tensor α)} {symbols more : List Symbol} {values results : List (Tensor α)}

theorem getElem? (h : m.Holds symbols values) (i : Nat) :
    (symbols[i]?).map (fun s => m.get? s.id) = (values[i]?).map some := by
  have hat := congrArg (·[i]?) h
  simpa using hat

/-- Operands that have been traced have the values that they have when the program is run at once,
and the same ones are absent. -/
theorem operands (h : m.Holds symbols values) {operands : List (Option Nat)}
    {traced : List (Option Symbol)} (htraced : operands.mapM (operandAt symbols) = .ok traced) :
    ∃ xs, operands.mapM (operandAt values) = .ok xs ∧
      (traced.map (·.map Symbol.id)).mapM (Trace.operandOf m) = .ok xs ∧
      traced.map (·.map fun _ => ()) = xs.map (·.map fun _ => ()) := by
  induction operands generalizing traced with
  | nil =>
    obtain rfl := mapM_nil_eq_ok_iff.1 htraced
    exact ⟨[], rfl, rfl, rfl⟩
  | cons x operands ih =>
    obtain ⟨y, traced, hy, hrest, rfl⟩ := mapM_cons_eq_ok_iff.1 htraced
    obtain ⟨xs, hxs, hvalues, hpresent⟩ := ih hrest
    cases x with
    | none =>
      obtain rfl : none = y := Except.ok.inj hy
      exact ⟨none :: xs, mapM_cons_eq_ok_iff.2 ⟨none, xs, rfl, hxs, rfl⟩,
        mapM_cons_eq_ok_iff.2 ⟨none, xs, rfl, hvalues, rfl⟩, congrArg (none :: ·) hpresent⟩
    | some i =>
      obtain ⟨s, hs, rfl⟩ := map_eq_ok_iff.1 hy
      have hat := h.getElem? i
      rw [valueAt_eq_ok_iff.1 hs, Option.map_some] at hat
      obtain ⟨v, hv, hget⟩ := Option.map_eq_some_iff.1 hat.symm
      refine ⟨some v :: xs, mapM_cons_eq_ok_iff.2 ⟨some v, xs, ?_, hxs, rfl⟩,
        mapM_cons_eq_ok_iff.2 ⟨some v, xs, ?_, hvalues, rfl⟩, congrArg (some () :: ·) hpresent⟩
      · exact map_eq_ok_iff.2 ⟨v, valueAt_eq_ok_iff.2 hv, rfl⟩
      · exact map_eq_ok_iff.2 ⟨v, orError_eq_ok_iff.2 hget.symm, rfl⟩

/-- Outputs have the values that they have when the program is run at once. -/
theorem outputs (h : m.Holds symbols values) {positions : List Nat} {traced : List Symbol}
    (htraced : positions.mapM (valueAt symbols) = .ok traced) :
    ∃ xs, positions.mapM (valueAt values) = .ok xs ∧
      (traced.map Symbol.id).map m.get? = xs.map some := by
  induction positions generalizing traced with
  | nil =>
    obtain rfl := mapM_nil_eq_ok_iff.1 htraced
    exact ⟨[], rfl, rfl⟩
  | cons i positions ih =>
    obtain ⟨s, traced, hs, hrest, rfl⟩ := mapM_cons_eq_ok_iff.1 htraced
    obtain ⟨xs, hxs, hvalues⟩ := ih hrest
    have hat := h.getElem? i
    rw [valueAt_eq_ok_iff.1 hs, Option.map_some] at hat
    obtain ⟨v, hv, hget⟩ := Option.map_eq_some_iff.1 hat.symm
    refine ⟨v :: xs, mapM_cons_eq_ok_iff.2 ⟨v, xs, valueAt_eq_ok_iff.2 hv, hxs, rfl⟩, ?_⟩
    rw [List.map_cons, List.map_cons, List.map_cons, hvalues, ← hget]

theorem append (h : m.Holds symbols values) (hmore : m.Holds more results) :
    m.Holds (symbols ++ more) (values ++ results) := by
  unfold Holds at h hmore ⊢
  rw [List.map_append, List.map_append, h, hmore]

/-- Values of other symbols make no difference. -/
theorem insertAll (h : m.Holds symbols values) {ids : List SymbolId}
    (hids : ∀ s ∈ symbols, s.id ∉ ids) (xs : List (Tensor α)) :
    (m.insertAll ids xs).Holds symbols values := by
  unfold Holds at h ⊢
  rw [← h]
  exact List.map_congr_left fun s hs => get?_insertAll_of_notMem (hids s hs) m xs

end SymbolMap.Holds

/-- A call on operands of which the same ones are absent binds its static arguments as it has been
traced. So it makes no difference whether they are bound already. -/
theorem Operator.execute_bound {o : Operator α} (hproper : o.signature.Proper)
    {traced : List (Option Symbol)} {xs : List (Option (Tensor α))}
    (hpresent : traced.map (·.map fun _ => ()) = xs.map (·.map fun _ => ())) {attrs bound : Attrs}
    (hbound : o.bind (traced.map (·.map Symbol.type)) attrs = .ok bound) :
    o.execute xs bound = o.execute xs attrs := by
  have hraw : o.bind xs attrs = .ok bound := by
    rw [← bind_map o xs attrs fun _ => (), ← hpresent, bind_map, ← hbound, bind_map]
  obtain ⟨hoperands, hattrs⟩ := bind_eq_ok_iff.1 hraw
  have hself : o.bind xs bound = .ok bound :=
    bind_eq_ok_iff.2 ⟨hoperands, Signature.bindAttrs_self hproper hattrs⟩
  unfold execute
  rw [hraw, hself]

/-- What a call that has been traced computes, if the implementation gives as many results as have
been declared: the same as with the static arguments as they are written. -/
theorem Trace.computeNode_traced {n : Node α} (hproper : n.op.operator.signature.Proper)
    {traced : List (Option Symbol)} {xs : List (Option (Tensor α))}
    (hpresent : traced.map (·.map fun _ => ()) = xs.map (·.map fun _ => ())) {attrs : Attrs}
    (hbound : n.op.operator.bind (traced.map (·.map Symbol.type)) attrs = .ok n.attrs)
    (hcount : ∀ results, n.op.operator.execute xs attrs = .ok results →
      results.length = n.outputs.length) :
    computeNode false n xs = n.op.operator.execute xs attrs := by
  unfold computeNode
  simp only [Bool.false_eq_true, ↓reduceIte, Operator.execute_bound hproper hpresent hbound]
  cases hrun : n.op.operator.execute xs attrs with
  | error e => rfl
  | ok results => simp [hcount results hrun]

/-- A run of recorded calls and a run of the steps that have recorded them: both fail in the same
way, or the symbols have the values of the program and no tensor is left. In either case the same
calls have been made. -/
inductive SameRun (symbols : List Symbol) :
    Except Failure (SymbolMap (Tensor α)) × Journal → Except Failure (Eager α) × Journal → Prop
  | failed (e : Failure) (j : Journal) : SameRun symbols (.error e, j) (.error e, j)
  | returned {m : SymbolMap (Tensor α)} {values : List (Tensor α)} (j : Journal)
    (h : m.Holds symbols values) : SameRun symbols (.ok m, j) (.ok ⟨values, []⟩, j)

/-- What tracing steps records: inputs and calls whose symbols come after those so far. When the
inputs have the tensors that are supplied, running the calls is running the steps. -/
structure Traced (steps : List (Instruction α)) (symbols symbols' : List Symbol) (t t' : Tracer α)
    (inputs : List SymbolId) (nodes : List (Node α)) : Prop where
  inputs_eq : t'.inputs = t.inputs ++ inputs
  nodes_eq : t'.nodes = t.nodes ++ nodes
  nodup : inputs.Nodup
  later : ∀ id ∈ inputs, t.symbols.length ≤ id.index
  run : ∀ (m : SymbolMap (Tensor α)) values supplied j, m.Holds symbols values →
    inputs.map m.get? = supplied.map some →
      Instruction.CountAlong steps symbols t ⟨values, supplied⟩ →
        SameRun symbols' ((Trace.runNodes false nodes m).apply j)
          ((steps.foldlM Instruction.run ⟨values, supplied⟩).apply j)

namespace Instruction

variable {symbols symbols' : List Symbol} {t t' : Tracer α} {steps : List (Instruction α)}

theorem trace_input_eq_ok {type : TensorType}
    (h : ((input type : Instruction α).trace symbols).apply t = (.ok symbols', t')) :
    symbols' = symbols ++ [(t.input type).1] ∧ t' = (t.input type).2 := by
  obtain ⟨hsymbols, ht⟩ := Prod.mk.inj h
  exact ⟨(Except.ok.inj hsymbols).symm, ht.symm⟩

theorem trace_call_eq_ok_iff {op : NodeOp α} {operands : List (Option Nat)} {attrs : Attrs} :
    ((call op operands attrs).trace symbols).apply t = (.ok symbols', t') ↔
      ∃ traced results, operands.mapM (operandAt symbols) = .ok traced ∧
        (Tracer.call op traced attrs).apply t = (.ok results, t') ∧
          symbols' = symbols ++ results := by
  simp only [trace, Act.apply_bind_eq_ok_iff, Act.apply_lift, Prod.mk.injEq, Act.apply_pure,
    Except.ok.injEq]
  constructor
  · rintro ⟨traced, _, ⟨htraced, rfl⟩, results, _, hcall, rfl, rfl⟩
    exact ⟨traced, results, htraced, hcall, rfl⟩
  · rintro ⟨traced, results, htraced, hcall, rfl⟩
    exact ⟨traced, t, ⟨htraced, rfl⟩, results, t', hcall, rfl, rfl⟩

/-- A step keeps to the symbols of the program. -/
theorem trace_owned {step : Instruction α} (ht : t.Recorded)
    (howned : ∀ s ∈ symbols, s.id.index < t.symbols.length)
    (h : (step.trace symbols).apply t = (.ok symbols', t')) :
    t'.Recorded ∧ ∀ s ∈ symbols', s.id.index < t'.symbols.length := by
  cases step with
  | input type =>
    obtain ⟨rfl, rfl⟩ := trace_input_eq_ok h
    have hlength : (t.input type).2.symbols.length = t.symbols.length + 1 := by
      simp [Tracer.input, Tracer.declare]
    refine ⟨ht.input type, fun s hs => ?_⟩
    rw [hlength]
    rcases List.mem_append.1 hs with hs | hs
    · exact Nat.lt_succ_of_lt (howned s hs)
    · rw [List.mem_singleton.1 hs]
      exact Nat.lt_succ_self _
  | call op operands attrs =>
    obtain ⟨traced, results, -, hcall, rfl⟩ := trace_call_eq_ok_iff.1 h
    have hle := (Tracer.extends_of_call hcall).symbols.length_le
    refine ⟨ht.call hcall, fun s hs => ?_⟩
    rcases List.mem_append.1 hs with hs | hs
    · exact Nat.lt_of_lt_of_le (howned s hs) hle
    · obtain ⟨bound, types, -, -, -, rfl, rfl⟩ := Tracer.call_eq_ok_iff.1 hcall
      rw [Tracer.symbols_append, Tracer.declare, List.length_append]
      exact (Tracer.index_of_mem_fresh hs).2

/-- A step that declares an input, and the steps after it. -/
theorem traced_input {type : TensorType} {inputs : List SymbolId} {nodes : List (Node α)}
    (h : Traced steps (symbols ++ [(t.input type).1]) symbols' (t.input type).2 t' inputs nodes) :
    Traced (.input type :: steps) symbols symbols' t t' (t.nextId :: inputs) nodes where
  inputs_eq := by
    rw [h.inputs_eq]
    exact List.append_assoc _ _ _
  nodes_eq := h.nodes_eq
  nodup := by
    refine List.nodup_cons.2 ⟨fun hmem => ?_, h.nodup⟩
    have hlater := h.later t.nextId hmem
    have hlength : (t.input type).2.symbols.length = t.symbols.length + 1 := by
      simp [Tracer.input, Tracer.declare]
    rw [hlength] at hlater
    exact Nat.lt_irrefl _ hlater
  later := by
    refine List.forall_mem_cons.2 ⟨Nat.le_refl _, fun id hid => Nat.le_trans ?_ (h.later id hid)⟩
    simp [Tracer.input, Tracer.declare]
  run m values supplied j hm hinputs hcounts := by
    cases supplied with
    | nil => exact absurd hinputs (List.cons_ne_nil _ _)
    | cons x supplied =>
      obtain ⟨hx, hinputs⟩ := List.cons_eq_cons.1 hinputs
      have hone : m.Holds [(t.input type).1] [x] := congrArg (fun v => [v]) hx
      exact h.run m (values ++ [x]) supplied j (hm.append hone) hinputs
        (hcounts.2 _ _ ⟨values ++ [x], supplied⟩ j j rfl rfl)

/-- What is declared for a call is what the operator infers for the static arguments as they are
written. -/
theorem infer_of_call {op : NodeOp α} {types : List (Option TensorType)} {attrs bound : Attrs}
    {outputs : List TensorType} (hproper : op.operator.signature.Proper)
    (hbound : op.operator.bind types attrs = .ok bound)
    (hinfer : op.inferTypes types bound = .ok outputs) :
    op.operator.infer types attrs = .ok outputs :=
  Operator.infer_eq_ok_iff.2 ⟨bound, hbound, NodeOp.inferBound_of_inferTypes hbound hinfer
    hproper.built⟩

/-- A step that makes a call, and the steps after it. -/
theorem traced_call (ht : t.Recorded) (howned : ∀ s ∈ symbols, s.id.index < t.symbols.length)
    {op : NodeOp α} (hproper : op.operator.signature.Proper) {operands : List (Option Nat)}
    {attrs : Attrs} {traced : List (Option Symbol)} {results : List Symbol} {t₁ : Tracer α}
    (htraced : operands.mapM (operandAt symbols) = .ok traced)
    (hcall : (Tracer.call op traced attrs).apply t = (.ok results, t₁)) {inputs : List SymbolId}
    {nodes : List (Node α)} (h : Traced steps (symbols ++ results) symbols' t₁ t' inputs nodes) :
    ∃ n, Traced (.call op operands attrs :: steps) symbols symbols' t t' inputs (n :: nodes) := by
  have hstep := trace_call_eq_ok_iff.2 ⟨traced, results, htraced, hcall, rfl⟩
  obtain ⟨bound, types, hbound, hinfer, -, rfl, rfl⟩ := Tracer.call_eq_ok_iff.1 hcall
  let n : Node α := ⟨op, traced.map (·.map Symbol.id), bound, (t.fresh types).map Symbol.id⟩
  have hlength : n.outputs.length = types.length := by simp [n]
  have hlater : ∀ id ∈ n.outputs, t.symbols.length ≤ id.index := by
    intro id hid
    obtain ⟨s, hs, rfl⟩ := List.mem_map.1 hid
    exact (Tracer.index_of_mem_fresh hs).1
  rw [Tracer.declare_append ht.capture_eq_none] at h hstep
  have hnext : ∀ id ∈ inputs, id ∉ n.outputs ∧ t.symbols.length ≤ id.index := by
    intro id hid
    have hle := h.later id hid
    rw [List.length_append] at hle
    refine ⟨fun hmem => ?_, Nat.le_trans (Nat.le_add_right _ _) hle⟩
    obtain ⟨s, hs, rfl⟩ := List.mem_map.1 hmem
    exact Nat.not_lt.2 hle (Tracer.index_of_mem_fresh hs).2
  refine ⟨n, ⟨h.inputs_eq, ?_, h.nodup, fun id hid => (hnext id hid).2, ?_⟩⟩
  · rw [h.nodes_eq, List.append_assoc]
    rfl
  intro m values supplied j hm hinputs hcounts
  obtain ⟨xs, hxs, hvalues, hpresent⟩ := hm.operands htraced
  have hcount : ∀ results, op.operator.execute xs attrs = .ok results →
      results.length = n.outputs.length := fun results hrun =>
    (hcounts.1 traced xs types results htraced hxs (infer_of_call hproper hbound hinfer) hrun).trans
      hlength.symm
  have hcompute : Trace.computeNode false n xs = op.operator.execute xs attrs :=
    Trace.computeNode_traced hproper hpresent hbound hcount
  -- Both runs read the same operands, write the same event and compute the same results.
  simp only [Trace.runNodes, List.foldlM_cons, Trace.runNode, run, Act.apply_bind, Act.apply_lift,
    Act.apply_modify, hxs, show n.inputs.mapM (Trace.operandOf m) = .ok xs from hvalues, hcompute]
  cases hrun : op.operator.execute xs attrs with
  | error e => exact .failed e _
  | ok results =>
    have hfresh : (m.insertAll n.outputs results).Holds (t.fresh types) results := by
      have hget := SymbolMap.map_get?_insertAll (Tracer.nodup_map_id_fresh (t := t) types)
        (hcount results hrun).symm m
      rwa [List.map_map] at hget
    have hrest : (m.insertAll n.outputs results).Holds symbols values :=
      hm.insertAll (fun s hs hmem => Nat.not_lt.2 (hlater s.id hmem) (howned s hs)) results
    refine h.run _ _ supplied _ (hrest.append hfresh) ?_
      (hcounts.2 _ _ _ j (j ++ [Trace.executing op]) hstep ?_)
    · rw [← hinputs]
      exact List.map_congr_left fun id hid =>
        SymbolMap.get?_insertAll_of_notMem (hnext id hid).1 m results
    · simp only [run, Act.apply_bind, Act.apply_lift, Act.apply_modify, hxs, hrun, Act.apply_pure]

/-- What tracing steps records. -/
theorem exists_traced (ht : t.Recorded) (howned : ∀ s ∈ symbols, s.id.index < t.symbols.length)
    (hproper : ∀ step ∈ steps, step.Proper)
    (h : (steps.foldlM trace symbols).apply t = (.ok symbols', t')) :
    t'.Recorded ∧ ∃ inputs nodes, Traced steps symbols symbols' t t' inputs nodes := by
  induction steps generalizing symbols t with
  | nil =>
    obtain ⟨hsymbols, rfl⟩ := Prod.mk.inj h
    obtain rfl := Except.ok.inj hsymbols
    refine ⟨ht, [], [], (List.append_nil _).symm, (List.append_nil _).symm, .nil, nofun, ?_⟩
    intro m values supplied j hm hinputs _
    obtain rfl : supplied = [] := List.map_eq_nil_iff.1 hinputs.symm
    exact .returned j hm
  | cons step steps ih =>
    obtain ⟨hfirst, hproper⟩ := List.forall_mem_cons.1 hproper
    rw [List.foldlM_cons, Act.apply_bind_eq_ok_iff] at h
    obtain ⟨symbols₁, t₁, hstep, hrest⟩ := h
    obtain ⟨ht₁, howned₁⟩ := trace_owned ht howned hstep
    obtain ⟨hrecorded, inputs, nodes, htraced⟩ := ih ht₁ howned₁ hproper hrest
    refine ⟨hrecorded, ?_⟩
    cases step with
    | input type =>
      obtain ⟨rfl, rfl⟩ := trace_input_eq_ok hstep
      exact ⟨t.nextId :: inputs, nodes, traced_input htraced⟩
    | call op operands attrs =>
      obtain ⟨traced, results, hoperands, hcall, rfl⟩ := trace_call_eq_ok_iff.1 hstep
      obtain ⟨n, hcalled⟩ := traced_call ht howned hfirst hoperands hcall htraced
      exact ⟨inputs, n :: nodes, hcalled⟩

end Instruction

/-- What the operator infers and what its implementation returns has a fixed length. -/
structure Operator.HasArity (o : Operator α) (k : Nat) : Prop where
  infer : ∀ args types, o.outputTypes args = .ok types → types.length = k
  compute : ∀ args results, o.compute args = .ok results → results.length = k

/-- Operators with a fixed number of results give as many as they infer. -/
theorem Instruction.countAlong_of_arity {steps : List (Instruction α)}
    (h : ∀ step ∈ steps, ∀ op operands attrs, step = .call op operands attrs →
      ∃ k, op.operator.HasArity k) (symbols : List Symbol) (t : Tracer α) (s : Eager α) :
    CountAlong steps symbols t s := by
  induction steps generalizing symbols t s with
  | nil => trivial
  | cons step steps ih =>
    obtain ⟨hstep, hsteps⟩ := List.forall_mem_cons.1 h
    refine ⟨?_, fun symbols' t' s' _ _ _ _ => ih hsteps symbols' t' s'⟩
    cases step with
    | input type => trivial
    | call op operands attrs =>
      obtain ⟨k, hk⟩ := hstep op operands attrs rfl
      intro traced xs types results _ _ hinfer hrun
      obtain ⟨bound, -, hinferred⟩ := Operator.infer_eq_ok_iff.1 hinfer
      obtain ⟨bound', -, hcomputed⟩ := bind_eq_ok_iff.1 hrun
      rw [hk.infer _ _ (withContext_eq_ok_iff.1 hinferred),
        hk.compute _ _ (withContext_eq_ok_iff.1 hcomputed)]

namespace Program

/-- A trace does what its program does at once: it makes the same calls, up to the same one that
fails, and returns the same tensors or fails in the same way. -/
theorem run_trace (p : Program α) (id : TraceId) (t : Trace α) (tensors : List (Tensor α))
    (hproper : p.Proper) (htrace : p.trace id = .ok t)
    (htypes : t.inputs.map t.typeOf? = tensors.map (some ·.type)) (hcounts : p.Counts id tensors) :
    t.execute tensors false = p.execute tensors ∧
      (t.run tensors false).apply [] = (p.run tensors).apply [] := by
  suffices hrun : (t.run tensors false).apply [] = (p.run tensors).apply [] from
    ⟨congrArg Prod.fst hrun, hrun⟩
  obtain ⟨⟨symbols, t'⟩, hsteps, hrest⟩ := bind_eq_ok_iff.1 htrace
  obtain ⟨outputs, houtputs, hfinish⟩ := bind_eq_ok_iff.1 hrest
  obtain ⟨-, -, ht⟩ := Tracer.finish_eq_ok_iff.1 hfinish
  obtain ⟨-, inputs, nodes, htraced⟩ := Instruction.exists_traced (.empty id)
    (fun _ hs => absurd hs List.not_mem_nil) hproper (Act.outcome_eq_ok_iff.1 hsteps)
  have hinputs : t.inputs = inputs := (congrArg Trace.inputs ht).trans htraced.inputs_eq
  have hnodes : t.nodes = nodes := (congrArg Trace.nodes ht).trans htraced.nodes_eq
  have hreturned : t.outputs = outputs.map Symbol.id := congrArg Trace.outputs ht
  have hlength : inputs.length = tensors.length := by
    have hlengths := congrArg List.length htypes
    rwa [List.length_map, List.length_map, hinputs] at hlengths
  let m : SymbolMap (Tensor α) := SymbolMap.empty.insertAll inputs tensors
  have hbind : t.bindInputs tensors = .ok m :=
    Trace.bindInputs_eq_ok_iff.2 ⟨htypes, hinputs ▸ rfl⟩
  have hsame := htraced.run m [] tensors [] rfl
    (SymbolMap.map_get?_insertAll htraced.nodup hlength .empty) hcounts
  unfold Trace.run Program.run
  simp only [Act.apply_bind, Act.apply_lift, hbind, hnodes]
  revert hsame
  generalize (Trace.runNodes false nodes m).apply [] = traceRun
  generalize (p.steps.foldlM Instruction.run ⟨[], tensors⟩).apply [] = eagerRun
  intro hsame
  cases hsame with
  | failed e j => rfl
  | returned j hholds =>
    obtain ⟨xs, hxs, hvalues⟩ := hholds.outputs houtputs
    rw [← hreturned] at hvalues
    simp only [hxs, Trace.outputValues_eq_ok_iff.2 hvalues]

/-- An operator with an optional operand and a static argument, which returns its first operand. -/
def repeating : Operator Float32 where
  id := ⟨9⟩
  space := "toy"
  name := "repeating"
  signature := ((Signature.empty.tensor "x").optionalTensor "y").attr "times" .int (.int 2)
  outputTypes args := do return [← args.tensor 0]
  compute args := do return [← args.tensor 0]

/-- Calls the operator with and without its optional operand, and leaves its static argument out. -/
def repeatingTwice : Program Float32 where
  steps := [.input oneNumber, .call (.kernel repeating) [some 0, none] .empty,
    .call (.highLevel repeating) [some 1, some 0] .empty]
  outputs := [2, 1]

theorem hasArity_repeating : repeating.HasArity 1 where
  infer args types h := by
    obtain ⟨type, -, htypes⟩ := bind_eq_ok_iff.1 h
    rw [← Except.ok.inj htypes]
    rfl
  compute args results h := by
    obtain ⟨x, -, hresults⟩ := bind_eq_ok_iff.1 h
    rw [← Except.ok.inj hresults]
    rfl

theorem proper_repeating : repeating.signature.Proper where
  built := .attr "times" .int (.int 2) (.optionalTensor "y" (.tensor "x" .empty))
  distinct := List.nodup_singleton "times"
  accepted p hp v hv := by
    obtain rfl := List.mem_singleton.1 hp
    rw [← Option.some.inj hv]
    rfl

/-- A tensor for the input. -/
def oneZero : Tensor Float32 := .zeros oneNumber

/-- In the trace the static argument is bound to its default. -/
theorem run_trace_repeating : repeatingTwice.Proper ∧ ∃ t, repeatingTwice.trace ⟨0⟩ = .ok t ∧
    t.inputs.map t.typeOf? = [oneZero].map (some ·.type) ∧ repeatingTwice.Counts ⟨0⟩ [oneZero] ∧
      t.execute [oneZero] false = repeatingTwice.execute [oneZero] := by
  have hproper : repeatingTwice.Proper := by
    intro step hstep
    simp only [repeatingTwice, List.mem_cons, List.not_mem_nil, or_false] at hstep
    rcases hstep with rfl | rfl | rfl
    · trivial
    · exact proper_repeating
    · exact proper_repeating
  have hcounts : repeatingTwice.Counts ⟨0⟩ [oneZero] := by
    refine Instruction.countAlong_of_arity (fun step hstep op operands attrs heq => ⟨1, ?_⟩) _ _ _
    subst heq
    simp only [repeatingTwice, List.mem_cons, List.not_mem_nil, or_false, reduceCtorEq,
      false_or, Instruction.call.injEq] at hstep
    rcases hstep with ⟨rfl, -, -⟩ | ⟨rfl, -, -⟩
    · exact hasArity_repeating
    · exact hasArity_repeating
  obtain ⟨t, htrace, htypes⟩ : ∃ t, repeatingTwice.trace ⟨0⟩ = .ok t ∧
      t.inputs.map t.typeOf? = [oneZero].map (some ·.type) := ⟨_, rfl, rfl⟩
  exact ⟨hproper, t, htrace, htypes, hcounts,
    (run_trace repeatingTwice ⟨0⟩ t [oneZero] hproper htrace htypes hcounts).1⟩

end Program

end TraceSubstitution
