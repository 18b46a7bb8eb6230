import TraceSubstitution.Proofs.Flash.Turns

/-!
# Going through additions and attention

A replacer with the fused executor that goes through a recorded source of
additions and calls of attention never fails: every call becomes a `Flash.Turn`,
in either mode. `Flash.exists_step` is one call, `Flash.exists_steps` all of them.
-/

namespace TraceSubstitution

namespace Flash

variable {α : Type} [Scalar α] {kernel : FlashKernel α} {config : FlashConfig} {available : Bool}
  {overrides : Overrides} {options : ReplacerOptions} {p : Progress α} {source : List TensorType}
  {known hidden : List SymbolId} {n : Node α} {operands : List (Option Symbol)}
  {output : TensorType}

theorem exists_replacement_add (h : p.Tracks source known hidden)
    (hn : n.Typed source (operands.map (·.map Symbol.type)) [output])
    (hop : n.op = .highLevel Core.add)
    (howned : ∀ s, some s ∈ operands → p.tracer.owns s = true ∧ s.id ∉ hidden) (gradient : Bool)
    {record : DispatchRecord} (hrecord : record.outcome = .fallback) : ∃ f t' node,
      (replacer kernel config available overrides options).replacement gradient p Core.add n operands
          none = .ok ([⟨p.tracer.id, p.tracer.nextId, output⟩], f, { p with tracer := t' }) ∧
        Turn.Becomes (registeredOperators kernel available) available source gradient p.tracer
          hidden ⟨n, record, node⟩ output t' f := by
  cases gradient with
  | false =>
    have hproper : n.op.operator.signature.Proper := by
      rw [hop]
      exact Core.proper_signature
    obtain ⟨t', node, hcall, hbecomes⟩ := becomes_of_call h hn hproper howned hrecord
    rw [hop] at hcall
    exact ⟨_, t', node, Replacer.replacement_false_of_ok
      (Replacer.forwardOutputs_none_eq_ok_iff.2 ⟨t', hcall, rfl⟩), hbecomes⟩
  | true =>
    have hinfer := hn.inferred
    rw [hop] at hinfer
    obtain ⟨t, node, hrun, hbecomes⟩ := becomes_of_addGradient h hn hop howned hrecord _
    exact ⟨_, _, node, Replacer.replacement_true_of_run (offers_replacer ..).add hrun hinfer,
      hbecomes⟩

theorem exists_replacement_attention (h : p.Tracks source known hidden)
    (hn : n.Typed source (operands.map (·.map Symbol.type)) [output])
    (hop : n.op = .highLevel Attention.operator)
    (howned : ∀ s, some s ∈ operands → p.tracer.owns s = true ∧ s.id ∉ hidden) (gradient : Bool)
    {record : DispatchRecord} {rule : Option (Rule α)}
    (hrule : (replacer kernel config available overrides options).chosenRule Attention.operator
      ⟨(Attention.operator : Operator α).qualifiedName, operands, n.attrs⟩ gradient = .ok rule)
    (hrecord : record.outcome = Replacer.outcomeOf rule) : ∃ f t' node,
      (replacer kernel config available overrides options).replacement gradient p
          Attention.operator n operands rule =
            .ok ([⟨p.tracer.id, p.tracer.nextId, output⟩], f, { p with tracer := t' }) ∧
        Turn.Becomes (registeredOperators kernel available) available source gradient p.tracer
          hidden ⟨n, record, node⟩ output t' f := by
  have hinfer := hn.inferred
  rw [hop] at hinfer
  rcases (offers_replacer kernel config available overrides options).chosenRule_attention
    ⟨(Attention.operator : Operator α).qualifiedName, operands, n.attrs⟩ gradient with
      hnone | ⟨hsome, hadmits⟩
  · obtain rfl : rule = none := Except.ok.inj (hrule.symm.trans hnone)
    cases gradient with
    | false =>
      have hproper : n.op.operator.signature.Proper := by
        rw [hop]
        exact Attention.proper_signature
      obtain ⟨t', node, hcall, hbecomes⟩ := becomes_of_call h hn hproper howned hrecord
      rw [hop] at hcall
      exact ⟨_, t', node, Replacer.replacement_false_of_ok
        (Replacer.forwardOutputs_none_eq_ok_iff.2 ⟨t', hcall, rfl⟩), hbecomes⟩
    | true =>
      obtain ⟨t, node, hrun, hbecomes⟩ := becomes_of_attentionGradient h hn hop howned hrecord _
      exact ⟨_, _, node, Replacer.replacement_true_of_run (offers_replacer ..).attention hrun
        hinfer, hbecomes⟩
  · obtain rfl := Except.ok.inj (hrule.symm.trans hsome)
    cases gradient with
    | false =>
      obtain ⟨t', node, hrun, hbecomes⟩ := becomes_of_execution h hn hop howned hadmits hrecord
      exact ⟨_, t', node, Replacer.replacement_false_of_ok
        (Replacer.forwardOutputs_some_eq_ok_iff.2 ⟨t', hrun, hinfer, rfl⟩), hbecomes⟩
    | true =>
      obtain ⟨t, node, hrun, hbecomes⟩ := becomes_of_gradient h hn hop howned hadmits hrecord
      exact ⟨_, _, node, Replacer.replacement_true_of_run (gradientTransform_rule ..) hrun hinfer,
        hbecomes⟩

/-- The operators of the programs that are replaced. -/
def sources : Set (Operator α) := {Core.add, Attention.operator}

theorem injOn_sources : Set.InjOn Operator.id (sources : Set (Operator α)) := by
  intro x hx y hy hid
  rcases hx with rfl | rfl <;> rcases hy with rfl | rfl
  · rfl
  · exact absurd (OperatorId.mk.inj hid) (by decide)
  · exact absurd (OperatorId.mk.inj hid) (by decide)
  · rfl

/-- The call is an addition or a call of attention that may be replaced. -/
def Replaceable (n : Node α) : Prop :=
  n.op = .highLevel Core.add ∨ n.op = .highLevel Attention.operator

theorem Replaceable.mem_sources (h : Replaceable n) : n.op.operator ∈ sources := by
  rcases h with h | h
  · rw [h]
    exact .inl rfl
  · rw [h]
    exact .inr rfl

variable (kernel config available overrides options) in
/-- Every call of a source is decided, and something takes its place. -/
theorem exists_replacement (h : p.Tracks source known hidden)
    (hn : n.Typed source (operands.map (·.map Symbol.type)) [output]) (hop : Replaceable n)
    (howned : ∀ s, some s ∈ operands → p.tracer.owns s = true ∧ s.id ∉ hidden) (gradient : Bool) :
    ∃ o rule, n.op = .highLevel o ∧ o ∈ sources ∧
      (replacer kernel config available overrides options).chosenRule o
        ⟨o.qualifiedName, operands, n.attrs⟩ gradient = .ok rule ∧
      ∀ record : DispatchRecord, record.outcome = Replacer.outcomeOf rule → ∃ f t' node,
        (replacer kernel config available overrides options).replacement gradient p o n operands
            rule = .ok ([⟨p.tracer.id, p.tracer.nextId, output⟩], f, { p with tracer := t' }) ∧
          Turn.Becomes (registeredOperators kernel available) available source gradient p.tracer
            hidden ⟨n, record, node⟩ output t' f := by
  rcases hop with hop | hop
  · have hrule := (offers_replacer kernel config available overrides options).chosenRule_add
      ⟨(Core.add : Operator α).qualifiedName, operands, n.attrs⟩ gradient
    exact ⟨Core.add, none, hop, .inl rfl, hrule, fun record hrecord =>
      exists_replacement_add h hn hop howned gradient hrecord⟩
  · obtain ⟨rule, hrule, -⟩ := (offers_replacer kernel config available overrides
      options).exists_rule_attention (operands.map (·.map Symbol.type)) n.attrs
    have hrule := hrule gradient operands rfl
    exact ⟨Attention.operator, rule, hop, .inr rfl, hrule, fun record hrecord =>
      exists_replacement_attention h hn hop howned gradient hrule hrecord⟩

/-- One call of the source: it becomes a turn. -/
theorem exists_step {s : Journaled (Decisions α)}
    (hs : s.state.Right (replacer kernel config available overrides options) sources)
    (h : p.Tracks source known hidden) (hop : Replaceable n)
    (hn : ∃ types outputs, n.Typed source types outputs)
    (hreads : ∀ id, some id ∈ n.inputs → id ∈ known) (gradient : Bool) (index : Nat) :
    ∃ p' f s' τ output,
      ((replacer kernel config available overrides options).step gradient p index n).apply s =
          (.ok (p', f), s') ∧
        s'.state.Right (replacer kernel config available overrides options) sources ∧
        τ.call = n ∧ τ.record.node = index ∧ p'.report = p.report ++ [τ.record] ∧
        Turn.Becomes (registeredOperators kernel available) available source gradient p.tracer
          hidden τ output p'.tracer f ∧
        p'.Tracks source (known ++ n.outputs) (hidden ++ τ.hidden) := by
  have hr := (offers_replacer kernel config available overrides options).typeDirected
  have hright := Replacer.right_step hr injOn_sources hs hop.mem_sources gradient p index
  obtain ⟨types, outputs, hn⟩ := hn
  obtain ⟨operands, hoperands, rfl, howned⟩ := h.exists_operands hn.inputTypes hreads
  obtain ⟨output, rfl⟩ : ∃ output, outputs = [output] := by
    rcases hop with hop | hop
    · obtain ⟨type, -, houtputs, -⟩ := hn.of_add hop
      exact ⟨type, houtputs⟩
    · obtain ⟨_, _, _, _, type, -, houtputs, -⟩ := hn.of_attention hop
      exact ⟨type, houtputs⟩
  obtain ⟨id, rest, houtputs, hid, hnil⟩ := List.map_eq_cons_iff.1 hn.outputTypes
  obtain rfl : rest = [] := List.map_eq_nil_iff.1 hnil
  obtain ⟨o, rule, hhigh, ho, hrule, hreplacement⟩ := exists_replacement kernel config
    available overrides options h hn hop howned gradient
  obtain ⟨journal, hstep⟩ := Replacer.apply_step_of_right hs ho hhigh hoperands gradient index
  rw [hrule] at hstep
  let record : DispatchRecord := ⟨index, o.qualifiedName, Replacer.outcomeOf rule,
    (s.state.find? (.ofCall o.id gradient ⟨o.qualifiedName, operands, n.attrs⟩)).isSome⟩
  obtain ⟨f, t', node, hok, hbecomes⟩ := hreplacement record rfl
  have hlength : [(⟨p.tracer.id, p.tracer.nextId, output⟩ : Symbol)].length = n.outputs.length := by
    rw [houtputs]
    rfl
  have hdecided : (replacer kernel config available overrides options).decidedStep gradient p o n
      operands record rule = .ok (⟨t', p.symbols.insertAll n.outputs
        [⟨p.tracer.id, p.tracer.nextId, output⟩], p.report ++ [record]⟩, f) :=
    Replacer.decidedStep_eq_ok_iff.2 ⟨_, _, hok, hlength, rfl⟩
  have hstep := hstep.trans (congrArg (·, _) hdecided)
  refine ⟨_, f, _, ⟨n, record, node⟩, output, hstep, ?_, rfl, rfl, rfl, hbecomes, ?_⟩
  · rw [hstep] at hright
    exact hright
  · rw [houtputs]
    exact h.advance hbecomes.advances hid hbecomes.reads _

/-- What has become of calls of the source in order, the first of which is at position `index`. -/
structure Turned (ops : Operators α) (available : Bool) (source : List TensorType) (gradient : Bool)
    (p : Progress α) (index : Nat) (hidden : List SymbolId) (nodes : List (Node α))
    (turns : List (Turn α)) (p' : Progress α) (fragments : List (Fragment α)) : Prop where
  calls : turns.map Turn.call = nodes
  order : turns.map (·.record.node) = List.range' index nodes.length
  report : p'.report = p.report ++ turns.map Turn.record
  nodes : p'.tracer.nodes = p.tracer.nodes ++ turns.map Turn.node
  settled : ∀ τ ∈ turns, τ.Kept ∨ τ.Fused ops available source
  returns : ∀ τ ∈ turns, ∃ output, τ.node.outputs = output :: τ.hidden ∧
    p'.tracer.Shows (hidden ++ turns.flatMap Turn.hidden) output
  symbols : p.tracer.symbols <+: p'.tracer.symbols
  shows : ∀ id, p.tracer.Shows hidden id →
    p'.tracer.Shows (hidden ++ turns.flatMap Turn.hidden) id
  leaves : gradient = true → List.Forall₂
    (Turn.Leaves ops p'.tracer (hidden ++ turns.flatMap Turn.hidden)) turns fragments

namespace Turned

variable {ops : Operators α} {gradient : Bool} {index : Nat} {p₁ p' : Progress α}
  {nodes : List (Node α)} {τ : Turn α} {turns : List (Turn α)} {f : Fragment α}
  {fragments : List (Fragment α)}

theorem nil (ops : Operators α) (available : Bool) (source : List TensorType) (gradient : Bool)
    (p : Progress α) (index : Nat) (hidden : List SymbolId) :
    Turned ops available source gradient p index hidden [] [] p [] where
  calls := rfl
  order := rfl
  report := (List.append_nil _).symm
  nodes := (List.append_nil _).symm
  settled := fun _ hτ => absurd hτ List.not_mem_nil
  returns := fun _ hτ => absurd hτ List.not_mem_nil
  symbols := List.prefix_rfl
  shows := fun _ hid => (List.append_nil hidden).symm ▸ hid
  leaves := fun _ => .nil

theorem cons (hbecomes : τ.Becomes ops available source gradient p.tracer hidden output p₁.tracer f)
    (hindex : τ.record.node = index) (hreport : p₁.report = p.report ++ [τ.record])
    (h : Turned ops available source gradient p₁ (index + 1) (hidden ++ τ.hidden) nodes turns p'
      fragments) :
    Turned ops available source gradient p index hidden (τ.call :: nodes) (τ :: turns) p'
      (if f.isEmpty then fragments else f :: fragments) := by
  have hhidden : hidden ++ (τ :: turns).flatMap Turn.hidden =
      hidden ++ τ.hidden ++ turns.flatMap Turn.hidden := by
    rw [List.flatMap_cons, List.append_assoc]
  refine ⟨congrArg (τ.call :: ·) h.calls, ?_, ?_, ?_, ?_, ?_, ?_, ?_, ?_⟩
  · rw [List.map_cons, h.order, hindex]
    rfl
  · rw [h.report, hreport, List.append_assoc]
    rfl
  · rw [h.nodes, hbecomes.advances.nodes, List.append_assoc]
    rfl
  · exact List.forall_mem_cons.2 ⟨hbecomes.settled, h.settled⟩
  · rw [hhidden]
    exact List.forall_mem_cons.2 ⟨⟨_, hbecomes.advances.outputs_eq, h.shows _ hbecomes.shown⟩,
      h.returns⟩
  · exact hbecomes.advances.le.trans h.symbols
  · intro id hid
    rw [hhidden]
    exact h.shows id (hbecomes.advances.shows hid)
  · intro hgradient
    have hleaves := hbecomes.leaves hgradient
    rw [hleaves.isEmpty, hhidden]
    exact .cons (hleaves.mono h.symbols h.shows) (h.leaves hgradient)

end Turned

/-- Calls of the source in order: they become turns. -/
theorem exists_steps {s : Journaled (Decisions α)}
    (hs : s.state.Right (replacer kernel config available overrides options) sources)
    (h : p.Tracks source known hidden) {nodes : List (Node α)} (hops : ∀ n ∈ nodes, Replaceable n)
    (htyped : ∀ n ∈ nodes, ∃ types outputs, n.Typed source types outputs)
    (hclosed : Node.Closed known nodes) (gradient : Bool) (index : Nat) :
    ∃ p' fragments s' turns,
      ((replacer kernel config available overrides options).steps gradient p index nodes).apply s =
          (.ok (p', fragments), s') ∧
        p'.Tracks source (known ++ nodes.flatMap (·.outputs)) (hidden ++ turns.flatMap Turn.hidden) ∧
        Turned (registeredOperators kernel available) available source gradient p index hidden nodes
          turns p' fragments := by
  induction nodes generalizing p s known hidden index with
  | nil =>
    refine ⟨p, [], s, [], rfl, ?_, .nil ..⟩
    rw [List.flatMap_nil, List.flatMap_nil, List.append_nil, List.append_nil]
    exact h
  | cons n nodes ih =>
    obtain ⟨hn, hopsRest⟩ := List.forall_mem_cons.1 hops
    obtain ⟨hnTyped, htypedRest⟩ := List.forall_mem_cons.1 htyped
    obtain ⟨hreads, hclosedRest⟩ := Node.closed_cons.1 hclosed
    obtain ⟨p₁, f, s₁, τ, output, hstep, hs₁, rfl, hindex, hreport, hbecomes, h₁⟩ :=
      exists_step hs h hn hnTyped hreads gradient index
    obtain ⟨p', fragments, s', turns, hsteps, h', hturned⟩ :=
      ih hs₁ h₁ hopsRest htypedRest hclosedRest (index + 1)
    refine ⟨p', _, s', τ :: turns, ?_, ?_, hturned.cons hbecomes hindex hreport⟩
    · rw [Replacer.apply_steps_cons, hstep]
      simp only [hsteps]
      rfl
    · rw [List.flatMap_cons, List.flatMap_cons, ← List.append_assoc, ← List.append_assoc]
      exact h'

end Flash

end TraceSubstitution
