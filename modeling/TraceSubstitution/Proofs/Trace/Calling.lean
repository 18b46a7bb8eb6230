import TraceSubstitution.Proofs.Operator.Binding
import TraceSubstitution.Proofs.Trace.Recorded

/-!
# Calls that succeed

A typed call can be made again on operands of the same types: nothing changes but
the symbols. While a capture is open such a call is recorded as long as no operand
depends on a gradient, and diverted otherwise.
-/

namespace TraceSubstitution

variable {α : Type}

namespace Tracer

variable {t : Tracer α} {c : Capture α}

/-- The program with one more call and fresh symbols of the given types. -/
def extend (t : Tracer α) (types : List TensorType) (n : Node α) : Tracer α :=
  { t with symbols := t.symbols ++ types, nodes := t.nodes ++ [n] }

/-- The call of an operator on the next fresh symbols of the given types. -/
def nextNode (t : Tracer α) (op : NodeOp α) (operands : List (Option Symbol)) (attrs : Attrs)
    (types : List TensorType) : Node α :=
  ⟨op, operands.map (·.map Symbol.id), attrs, (t.fresh types).map Symbol.id⟩

/-- A call whose static arguments are bound already and whose operands are of the program. -/
theorem apply_call {op : NodeOp α} {operands : List (Option Symbol)} {attrs : Attrs}
    {types : List TensorType}
    (hbind : op.operator.bind (operands.map (·.map Symbol.type)) attrs = .ok attrs)
    (hinfer : op.inferTypes (operands.map (·.map Symbol.type)) attrs = .ok types)
    (howned : ∀ s, some s ∈ operands → t.owns s = true) :
    (call op operands attrs).apply t =
      (.ok (t.fresh types), (t.declare types).append (t.nextNode op operands attrs types)) :=
  call_eq_ok_iff.2 ⟨attrs, types, hbind, hinfer, howned, rfl, rfl⟩

theorem declare_append_eq_extend (ht : t.capture = none) (types : List TensorType) (n : Node α) :
    (t.declare types).append n = t.extend types n := declare_append ht types n

/-- A capture that has just been opened takes over nothing. -/
theorem declare_append_beginBackward (t : Tracer α) (types : List TensorType) (n : Node α) :
    (t.beginBackward.declare types).append n = (t.extend types n).beginBackward := by
  have hdepends : (Capture.empty : Capture α).dependsOnGradient n = false := by
    unfold Capture.dependsOnGradient
    rw [List.any_eq_false]
    intro x _
    cases x with
    | none => exact Bool.false_ne_true
    | some id => exact Bool.false_ne_true
  have hcapture : (t.beginBackward.declare types).capture = some .empty := rfl
  unfold append
  rw [hcapture]
  simp only [hdepends, Bool.false_eq_true, ↓reduceIte]
  rfl

/-- A call that depends on a gradient goes to the capture. -/
theorem declare_append_divert (hc : t.capture = some c) {n : Node α} {id : SymbolId}
    (hid : some id ∈ n.inputs) (htainted : id ∈ c.tainted) (types : List TensorType) :
    (t.declare types).append n = { t.declare types with capture := some (c.divert n) } := by
  have hdepends : c.dependsOnGradient n = true :=
    List.any_eq_true.2 ⟨some id, hid, List.contains_iff_mem.2 htainted⟩
  have hcapture : (t.declare types).capture = some c := hc
  unfold append
  rw [hcapture]
  simp only [hdepends, ↓reduceIte]

theorem apply_incomingGradient_beginBackward {primal : Symbol} (h : t.owns primal = true) :
    (incomingGradient primal).apply t.beginBackward =
      (.ok ⟨t.id, t.nextId, primal.type⟩, { t.declare [primal.type] with
        capture := some (Capture.empty.addPlaceholder t.nextId primal.id) }) :=
  incomingGradient_eq_ok_iff.2 ⟨h, .empty, rfl, .inr ⟨rfl, rfl, rfl⟩⟩

theorem apply_accumulateGradient {target contribution : Symbol} (hc : t.capture = some c)
    (htarget : t.owns target = true) (hcontribution : t.owns contribution = true)
    (htype : target.type = contribution.type) :
    (accumulateGradient target contribution).apply t =
      (.ok (), { t with capture := some (c.accumulate target.id contribution.id) }) :=
  accumulateGradient_eq_ok_iff.2 ⟨htarget, hcontribution, htype, c, hc, rfl⟩

theorem owns_of_le {s : Symbol} (hs : t.owns s = true) {t' : Tracer α}
    (hle : t.symbols <+: t'.symbols) (hid : t'.id = t.id) : t'.owns s = true := by
  obtain ⟨htrace, hget⟩ := owns_iff.1 hs
  exact owns_iff.2 ⟨htrace.trans hid.symm, Node.getElem?_of_le hle hget⟩

theorem owns_declare {types : List TensorType} {s : Symbol} (hs : s ∈ t.fresh types) :
    (t.declare types).owns s = true := by
  obtain ⟨i, hi, htrace, hindex⟩ := mem_fresh.1 hs
  refine owns_iff.2 ⟨htrace, ?_⟩
  rw [hindex]
  simpa [declare, List.getElem?_append_right] using hi

theorem owns_declare_head (t : Tracer α) (type : TensorType) (types : List TensorType) :
    (t.declare (type :: types)).owns ⟨t.id, t.nextId, type⟩ = true := by
  refine owns_iff.2 ⟨rfl, ?_⟩
  simp [declare, nextId]

/-- A call on a gradient that is open, whose results are contributed to three operands: all of it
goes to the capture. -/
theorem apply_call_accumulate (hc : t.capture = some c) {q k v : Symbol} (hq : t.owns q = true)
    (hk : t.owns k = true) (hv : t.owns v = true) (op : NodeOp α) (gradient : Symbol)
    (others : List (Option Symbol)) (htainted : gradient.id ∈ c.tainted) {attrs : Attrs}
    (hbind : op.operator.bind ((some gradient :: others).map (·.map Symbol.type)) attrs = .ok attrs)
    (hinfer : op.inferTypes ((some gradient :: others).map (·.map Symbol.type)) attrs =
      .ok [q.type, k.type, v.type])
    (howned : ∀ s, some s ∈ some gradient :: others → t.owns s = true) :
    ∃ dq dk dv t₁ t₂ t₃ t₄,
      (call op (some gradient :: others) attrs).apply t = (.ok [dq, dk, dv], t₁) ∧
      (accumulateGradient q dq).apply t₁ = (.ok (), t₂) ∧
      (accumulateGradient k dk).apply t₂ = (.ok (), t₃) ∧
      (accumulateGradient v dv).apply t₃ = (.ok (), t₄) ∧
      [dq, dk, dv] = t.fresh [q.type, k.type, v.type] ∧
      t₄.endBackward = (⟨c.placeholders, c.steps ++ [.node ⟨op,
          (some gradient :: others).map (·.map Symbol.id), attrs, [dq.id, dk.id, dv.id]⟩,
          .accumulate q.id dq.id, .accumulate k.id dk.id, .accumulate v.id dv.id]⟩,
        { t with symbols := t.symbols ++ [q.type, k.type, v.type], capture := none }) := by
  let types := [q.type, k.type, v.type]
  let dq : Symbol := ⟨t.id, ⟨t.symbols.length + 0⟩, q.type⟩
  let dk : Symbol := ⟨t.id, ⟨t.symbols.length + 1⟩, k.type⟩
  let dv : Symbol := ⟨t.id, ⟨t.symbols.length + 2⟩, v.type⟩
  have hfresh : [dq, dk, dv] = t.fresh types := rfl
  let c₁ := c.divert (t.nextNode op (some gradient :: others) attrs types)
  let t₁ : Tracer α := { t.declare types with capture := some c₁ }
  have hcall : (call op (some gradient :: others) attrs).apply t = (.ok [dq, dk, dv], t₁) := by
    rw [apply_call hbind hinfer howned, declare_append_divert hc List.mem_cons_self htainted,
      hfresh]
  have hle : t.symbols <+: t₁.symbols := List.prefix_append _ types
  have howns : ∀ s ∈ [dq, dk, dv], t₁.owns s = true := fun s hs => owns_declare (hfresh ▸ hs)
  have hdq := apply_accumulateGradient (t := t₁) (c := c₁) rfl (owns_of_le hq hle rfl)
    (howns dq List.mem_cons_self) rfl
  have hdk := apply_accumulateGradient
    (t := { t₁ with capture := some (c₁.accumulate q.id dq.id) }) rfl (owns_of_le hk hle rfl)
    (howns dk (List.mem_cons_of_mem _ List.mem_cons_self)) rfl
  have hdv := apply_accumulateGradient
    (t := { t₁ with capture := some ((c₁.accumulate q.id dq.id).accumulate k.id dk.id) }) rfl
    (owns_of_le hv hle rfl)
    (howns dv (List.mem_cons_of_mem _ (List.mem_cons_of_mem _ List.mem_cons_self))) rfl
  refine ⟨dq, dk, dv, _, _, _, _, hcall, hdq, hdk, hdv, hfresh, ?_⟩
  simp [endBackward, Capture.accumulate, c₁, Capture.divert, nextNode, t₁, declare, types, ← hfresh]

/-- The program with one more call, for the gradient of whose first output a placeholder has been
handed out. -/
def opened (t : Tracer α) (types : List TensorType) (n : Node α) (type : TensorType) : Tracer α :=
  { t with
    symbols := t.symbols ++ types ++ [type]
    nodes := t.nodes ++ [n]
    capture := some (Capture.empty.addPlaceholder ⟨(t.symbols ++ types).length⟩ t.nextId) }

theorem apply_incomingGradient_extend (t : Tracer α) (type : TensorType) (types : List TensorType)
    (n : Node α) : (incomingGradient ⟨t.id, t.nextId, type⟩).apply
      (t.extend (type :: types) n).beginBackward =
        (.ok ⟨t.id, ⟨(t.symbols ++ type :: types).length⟩, type⟩,
          t.opened (type :: types) n type) :=
  apply_incomingGradient_beginBackward (t := t.extend (type :: types) n)
    (t.owns_declare_head type types)

theorem owns_opened {s : Symbol} (hs : t.owns s = true) (types : List TensorType) (n : Node α)
    (type : TensorType) : (t.opened types n type).owns s = true :=
  owns_of_le hs ⟨types ++ [type], (List.append_assoc _ _ _).symm⟩ rfl

theorem owns_opened_of_mem_fresh {types : List TensorType} {s : Symbol} (hs : s ∈ t.fresh types)
    (n : Node α) (type : TensorType) : (t.opened types n type).owns s = true :=
  owns_of_le (owns_declare hs) (List.prefix_append _ [type]) rfl

theorem owns_opened_gradient (t : Tracer α) (types : List TensorType) (n : Node α)
    (type : TensorType) :
    (t.opened types n type).owns ⟨t.id, ⟨(t.symbols ++ types).length⟩, type⟩ = true :=
  (t.extend types n).owns_declare_head type []

end Tracer

namespace Node

variable {symbols : List TensorType} {n : Node α} {operandTypes : List (Option TensorType)}
  {outputs : List TensorType}

/-- Bound static arguments bind to themselves. -/
theorem Typed.bind_self (h : n.Typed symbols operandTypes outputs)
    (hproper : n.op.operator.signature.Proper) :
    n.op.operator.bind operandTypes n.attrs = .ok n.attrs := by
  obtain ⟨attrs, hbind⟩ := h.bound
  obtain ⟨hoperands, hattrs⟩ := Operator.bind_eq_ok_iff.1 hbind
  exact Operator.bind_eq_ok_iff.2 ⟨hoperands, Signature.bindAttrs_self hproper hattrs⟩

/-- A typed call can be made again on operands of the same types. -/
theorem Typed.apply_call (h : n.Typed symbols operandTypes outputs)
    (hproper : n.op.operator.signature.Proper) {t : Tracer α} {operands : List (Option Symbol)}
    (htypes : operands.map (·.map Symbol.type) = operandTypes)
    (howned : ∀ s, some s ∈ operands → t.owns s = true) :
    (Tracer.call n.op operands n.attrs).apply t = (.ok (t.fresh outputs),
      (t.declare outputs).append (t.nextNode n.op operands n.attrs outputs)) :=
  Tracer.apply_call (htypes ▸ h.bind_self hproper) (htypes ▸ h.inferred) howned

end Node

end TraceSubstitution
