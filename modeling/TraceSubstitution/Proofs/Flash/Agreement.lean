import TraceSubstitution.Proofs.Flash.Safety
import TraceSubstitution.Proofs.Replacement.Agreement

/-!
# Forward and joint programs of additions and attention

An execution transform and a gradient transform are two descriptions of what takes the
place of a call. For additions and for attention, replaced or not, both make the same
call (`Flash.settlesAll`), and so the forward and the joint program of a source agree
(`Flash.joint_agrees`).
-/

namespace TraceSubstitution

namespace Flash

variable {α : Type} [Scalar α] {kernel : FlashKernel α} {config : FlashConfig} {available : Bool}
  {r : Replacer α} {source : List TensorType} {n : Node α} {types : List (Option TensorType)}
  {output : TensorType}

/-- The operators that are called in place of additions and attention, forward and backward. -/
def targets (kernel : FlashKernel α) : Set (Operator α) :=
  {o | o ∈ Core.operators ∨ o = forwardOperator kernel true ∨ o = backwardOperator kernel true}

/-- An addition is made again in both modes. -/
theorem settles_add (h : Offers config available (registeredOperators kernel available) r)
    (hn : n.Typed source types [output]) (hop : n.op = .highLevel Core.add) :
    r.Settles (targets kernel) n types Core.add none (.again n types output) := by
  have hchosen : ∀ gradient (operands : List (Option Symbol)),
      operands.map (·.map Symbol.type) = types → r.chosenRule Core.add
        ⟨(Core.add : Operator α).qualifiedName, operands, n.attrs⟩ gradient = .ok none :=
    fun gradient operands _ => h.chosenRule_add _ gradient
  refine Replacer.settles_again hop Core.proper_signature (.inl List.mem_cons_self) hn hchosen h.add
    fun t operands htypes howned => ?_
  obtain ⟨type, htypes', houtput, hattrs⟩ := hn.of_add hop
  obtain rfl : output = type := List.singleton_inj.1 houtput
  subst htypes
  obtain ⟨x, rest, rfl, hx, hrest⟩ := exists_first htypes'
  obtain ⟨y, rest, rfl, hy, hnil⟩ := exists_first hrest
  obtain rfl : rest = [] := List.map_eq_nil_iff.1 hnil
  obtain ⟨t', hrun, hend⟩ := Core.apply_addGradient (howned x (by simp)) (howned y (by simp))
    (hx.trans hy.symm) (Core.add : Operator α).qualifiedName n.attrs
  rw [hx] at hrun hend
  -- The transform leaves the static arguments out; the call of the source has none.
  have hnode : (Placement.again n ([some x, some y].map (·.map Symbol.type)) output).node t
      [some x, some y] = ⟨.highLevel Core.add, [some x.id, some y.id], .empty, [t.nextId]⟩ := by
    rw [Placement.node_again rfl, hop, hattrs]
    rfl
  refine ⟨t', hrun, ⟨?_, ?_⟩, ?_⟩
  · rw [hnode, hend]
    exact ⟨rfl, rfl, rfl, [], [output], rfl, rfl⟩
  · rw [hend]
  · rw [hend]
    intro m hm
    simp at hm

/-- A call of attention that nothing replaces is made again in both modes. -/
theorem settles_attention (h : Offers config available (registeredOperators kernel available) r)
    (hn : n.Typed source types [output]) (hop : n.op = .highLevel Attention.operator)
    (hchosen : ∀ gradient (operands : List (Option Symbol)),
      operands.map (·.map Symbol.type) = types → r.chosenRule Attention.operator
        ⟨(Attention.operator : Operator α).qualifiedName, operands, n.attrs⟩ gradient = .ok none) :
    r.Settles (targets kernel) n types Attention.operator none (.again n types output) := by
  refine Replacer.settles_again hop Attention.proper_signature (.inl (by simp [Core.operators])) hn
    hchosen h.attention fun t operands htypes howned => ?_
  subst htypes
  obtain ⟨q, k, v, m, rfl, hbind, hinfer, hbackward, hbackwardInfer⟩ :=
    exists_operands_of_attention hn hop
  obtain ⟨t', dq, dk, dv, hrun, -, hend⟩ := Attention.apply_gradient howned hbind hinfer hbackward
    hbackwardInfer (Attention.operator : Operator α).qualifiedName
  refine ⟨t', hrun, ⟨?_, ?_⟩, ?_⟩
  · rw [Placement.node_again rfl, hop, hend]
    exact ⟨rfl, rfl, rfl, [], output :: [q.type, k.type, v.type], rfl, by simp [Placement.again]⟩
  · rw [hend]
  · rw [hend]
    intro x hx
    obtain rfl : x = _ := by simpa using hx
    exact .inl (List.mem_cons_of_mem _ (List.mem_cons_of_mem _ (List.mem_cons_of_mem _
      List.mem_cons_self)))

/-- `flash_fwd` takes the place of a call of attention in both modes, if the checker admits it. -/
theorem settles_rule (hn : n.Typed source types [output])
    (hop : n.op = .highLevel Attention.operator)
    (hchosen : ∀ gradient (operands : List (Option Symbol)),
      operands.map (·.map Symbol.type) = types → r.chosenRule Attention.operator
        ⟨(Attention.operator : Operator α).qualifiedName, operands, n.attrs⟩ gradient =
          .ok (some (rule config available (registeredOperators kernel available))))
    (hadmits : ∀ operands : List (Option Symbol), operands.map (·.map Symbol.type) = types →
      admits config available
        ⟨(Attention.operator : Operator α).qualifiedName, operands, n.attrs⟩ = true) :
    ∃ attrs lse, r.Settles (targets kernel) n types Attention.operator
      (some (rule config available (registeredOperators kernel available)))
      ⟨.kernel (forwardOperator kernel available), 3, attrs, output, [lse]⟩ := by
  -- The checker sees types only, so any operands of these types settle the call.
  obtain ⟨symbols, hsymbols⟩ := exists_operands_of_types types
  obtain ⟨rfl, query, key, value, causal, scale, lse, rfl, haccepts, -, hcall⟩ :=
    exists_call_of_types kernel hn hop hsymbols (hadmits symbols hsymbols)
  refine ⟨callAttrs causal scale, lse, hop, .inr (.inl rfl), hchosen,
    fun gradient p operands htypes hcapture howned => ?_⟩
  have hinfer := hn.inferred
  rw [hop, ← htypes] at hinfer
  obtain ⟨q, k, v, m, rfl, rfl, rfl, rfl, hnone⟩ := exists_of_types htypes
  obtain rfl : m = none := Option.map_eq_none_iff.1 hnone
  have howned : ∀ s, some s ∈ [some q, some k, some v] → p.tracer.owns s = true := fun s hs =>
    howned s (List.mem_append_left [none] hs)
  have hcall := hcall (Attention.operator : Operator α).qualifiedName q k v rfl
  cases gradient with
  | false =>
    have hrun := apply_execution hcall haccepts hcapture howned
    exact ⟨⟨[], []⟩, _, Replacer.replacement_false_of_ok
      (Replacer.forwardOutputs_some_eq_ok_iff.2 ⟨_, hrun, hinfer, rfl⟩),
      ⟨⟨rfl, rfl, hcapture, [lse], [], rfl, (List.append_nil _).symm⟩, rfl⟩, nofun⟩
  | true =>
    obtain ⟨t, dq, dk, dv, hrun, -, hend⟩ := apply_gradient hcall haccepts howned
    refine ⟨_, _, Replacer.replacement_true_of_run (gradientTransform_rule ..) hrun hinfer,
      ⟨?_, ?_⟩, ?_⟩
    · rw [hend]
      exact ⟨rfl, rfl, rfl, [lse], output :: [q.type, k.type, v.type], rfl, by simp⟩
    · rw [hend]
    · rw [hend]
      intro x hx
      obtain rfl : x = _ := by simpa using hx
      exact .inr (.inr rfl)

/-- The types of their operands settle what takes the place of additions and attention. -/
theorem settlesAll (h : Offers config available (registeredOperators kernel available) r)
    {source : Trace α} (hsource : source.Recorded) (hops : ∀ n ∈ source.nodes, Replaceable n) :
    r.SettlesAll sources (targets kernel) source.symbols source.nodes := by
  intro n hn
  obtain ⟨types, outputs, htyped⟩ := hsource.typed n hn
  rcases hops n hn with hop | hop
  · obtain ⟨output, -, rfl, -⟩ := htyped.of_add hop
    exact ⟨types, Core.add, none, _, .inl rfl, htyped, settles_add h htyped hop⟩
  · obtain ⟨_, _, _, _, output, -, rfl, -⟩ := htyped.of_attention hop
    obtain ⟨chosen, hchosen, rfl | ⟨rfl, hadmits⟩⟩ := h.exists_rule_attention types n.attrs
    · exact ⟨types, Attention.operator, none, _, .inr rfl, htyped,
        settles_attention h htyped hop hchosen⟩
    · obtain ⟨attrs, lse, hsettles⟩ := settles_rule htyped hop hchosen hadmits
      exact ⟨types, Attention.operator, _, _, .inr rfl, htyped, hsettles⟩

/-- Only disciplined gradient transforms are selected for additions and attention. -/
theorem selectsDisciplined (h : Offers config available (registeredOperators kernel available) r)
    {s : Journaled (Decisions α)} (hs : s.state.Right r sources) {q : Request α}
    (hops : ∀ n ∈ q.source.nodes, Replaceable n) : r.SelectsDisciplined (r.decisions q s) := by
  intro d hd T executor hT
  have hfollows := (Replacer.decides_answer h.typeDirected injOn_sources hs
    (fun n hn => (hops n hn).mem_sources) (List.Subset.refl s.state.keys)).follows d hd
  cases hrule : d.rule with
  | some chosen =>
    rw [hrule, h.rules chosen (hfollows.mem_rules hrule), gradientTransform_rule] at hT
    obtain ⟨rfl, -⟩ := Prod.mk.inj (Except.ok.inj hT)
    exact disciplined_gradient _
  | none =>
    rw [hrule] at hT
    obtain ⟨n, hn, hop⟩ := Replacer.op_of_mem_decisions hd
    rcases hops n hn with hadd | hattention
    · rw [← NodeOp.highLevel.inj (hadd.symm.trans hop), h.add] at hT
      obtain ⟨rfl, -⟩ := Prod.mk.inj (Except.ok.inj hT)
      exact Core.disciplined_addGradient
    · rw [← NodeOp.highLevel.inj (hattention.symm.trans hop), h.attention] at hT
      obtain ⟨rfl, -⟩ := Prod.mk.inj (Except.ok.inj hT)
      exact Attention.disciplined_gradient

/-- A registry that holds the `core` namespace, and perhaps the fused executor as well. -/
inductive Holds (kernel : FlashKernel α) : Registry α → Prop where
  | core : Holds kernel .initial
  | fused {config : FlashConfig} {available : Bool} {journal : Journal}
      {executor : Executor α} {s : Journaled (Registry α)}
      (h : (register kernel config available).apply ⟨.initial, journal⟩ = (.ok executor, s)) :
      Holds kernel s.state

theorem Holds.exists_offers {registry : Registry α} (h : Holds kernel registry) :
    ∃ config available, ∀ overrides options, Offers config available
      (registeredOperators kernel available) ⟨{ registry with overrides }, options⟩ := by
  cases h with
  | core =>
    exact ⟨.standard, false, fun overrides options => offers_initial _ _ overrides options _⟩
  | @fused config available journal executor s h =>
    obtain ⟨journal', hregister⟩ := apply_register kernel config available journal
    obtain rfl := (Prod.mk.inj (hregister.symm.trans h)).2
    exact ⟨config, available, fun overrides options =>
      offers_replacer kernel config available overrides options⟩

theorem Replaceable.built {n : Node α} (h : Replaceable n) : n.op.operator.signature.Built := by
  rcases h with h | h
  · rw [h]
    exact Core.proper_signature.built
  · rw [h]
    exact Attention.proper_signature.built

/-- After any history of additions and attention, all decisions that are remembered are right. -/
theorem right_after (h : Offers config available (registeredOperators kernel available) r)
    {history : List (Request α)}
    (hhistory : ∀ q ∈ history, ∀ n ∈ q.source.nodes, Replaceable n) :
    (r.after history).state.Right r sources := by
  have hstart : r.start.state.Right r sources := Decisions.right_empty _
  have hkeys : r.start.state.keys ⊆ [] := List.Subset.refl []
  exact (Replacer.decides_from h.typeDirected injOn_sources
    (fun q hq n hn => (hhistory q hq n hn).mem_sources) hstart hkeys).2

/-- The operators that are called are built-in ones, if the kernel is the reference kernel. -/
theorem exists_builtin {config : FlashConfig} {blockSize : Nat} {probe : Bool} {o : Operator α}
    (h : o ∈ targets (reference config blockSize probe)) :
    ∃ b ∈ builtins config blockSize probe, o = b.operator := by
  have hmap : ∀ o ∈ (builtins (α := α) config blockSize probe).map Builtin.operator,
      ∃ b ∈ builtins config blockSize probe, o = b.operator := by
    intro o ho
    obtain ⟨b, hb, rfl⟩ := List.mem_map.1 ho
    exact ⟨b, hb, rfl⟩
  refine hmap o ?_
  rcases h with hcore | rfl | rfl
  · exact List.mem_append_left [_, _] hcore
  · exact List.mem_append_right Core.operators List.mem_cons_self
  · exact List.mem_append_right Core.operators (List.mem_cons_of_mem _ List.mem_cons_self)

/-- Programs of additions and attention are replaced in both modes under any overrides and options,
whether the fused executor is registered or not, and whatever has been asked for before. The forward
and the joint program agree, and with the reference kernel they run to their ends, as long as there
is room. -/
theorem joint_agrees {registry : Registry α} (hregistry : Holds kernel registry)
    (overrides : Overrides) (options : ReplacerOptions) (history history' : List (Request α))
    (hhistory : ∀ q ∈ history ++ history', ∀ n ∈ q.source.nodes, Replaceable n)
    (source : Trace α) (hsource : source.Recorded) (hops : ∀ n ∈ source.nodes, Replaceable n)
    (id id' : TraceId) :
    ∃ x y s s',
      (Replacer.forward ⟨{ registry with overrides }, options⟩ id source).apply
          (Replacer.after ⟨{ registry with overrides }, options⟩ history) = (.ok x, s) ∧
      (Replacer.joint ⟨{ registry with overrides }, options⟩ id' source).apply
          (Replacer.after ⟨{ registry with overrides }, options⟩ history') = (.ok y, s') ∧
      Replaced.Agrees source x y ∧
      ∀ kernelConfig blockSize probe, kernel = reference kernelConfig blockSize probe →
        Replaced.Runs (builtins kernelConfig blockSize probe) source x y := by
  obtain ⟨config, available, hoffers⟩ := hregistry.exists_offers
  have h := hoffers overrides options
  obtain ⟨hbefore, hbefore'⟩ := List.forall_mem_append.1 hhistory
  have hright := right_after h hbefore
  have hright' := right_after h hbefore'
  have hbuilt : ∀ n ∈ source.nodes, n.op.operator.signature.Built := fun n hn => (hops n hn).built
  obtain ⟨x, y, s, s', hforward, hjoint, hgrows⟩ := Replacer.exists_grows h.typeDirected
    injOn_sources hright hright' hsource hbuilt (settlesAll h hsource hops) id id'
    (selectsDisciplined h hright' (q := ⟨true, id', source⟩) hops)
  obtain ⟨t, outs, ht, -, hfinish⟩ := Replacer.recorded_of_forward hforward
  have hclosed := Trace.Recorded.closed ⟨t, outs, ht, hfinish⟩
  have hinterface := Replacer.hasInterface_of_forward hsource hbuilt hforward
  refine ⟨x, y, s, s', hforward, hjoint, ?_, fun kernelConfig blockSize probe hkernel => ?_⟩
  · exact hgrows.agrees hclosed hinterface hsource.hasInterface (Replacer.calls_of_forward hforward)
      fun huntouched tensors verify htensors =>
        Replacer.execute_of_fallback hsource hbuilt hforward huntouched htensors verify
  · refine hgrows.runs hclosed hinterface (fun b hb => ⟨b.fulfils_of_mem hb, b.proper_of_mem hb⟩)
      fun n hn => ?_
    subst hkernel
    rcases hgrows.calls n hn with htarget | hgathers
    · exact exists_builtin htarget
    · exact exists_builtin (.inl (mem_operators_of_gathers hgathers))

/-- The joint program of `fusible`, asked for after the forward program. -/
def fusibleJointly : Except Failure (Replaced Float32) :=
  ((fusing.joint ⟨1⟩ fusible).apply (fusing.after [⟨false, ⟨0⟩, fusible⟩])).1

/-- The type of what `flash_fwd` returns besides the output of `fusible`. -/
def fusibleSums : TensorType := ⟨⟨[1, 1, 2]⟩, .f32, ⟨.cuda, 0⟩⟩

theorem symbols_fusibleJointly {y : Replaced Float32} (hy : fusibleJointly = .ok y) :
    y.trace.symbols =
      List.replicate 4 fusibleType ++ [fusibleSums] ++ List.replicate 5 fusibleType := by
  have hsymbols : (fusibleJointly.map (·.trace.symbols)).toOption =
      some (List.replicate 4 fusibleType ++ [fusibleSums] ++ List.replicate 5 fusibleType) := by
    decide +kernel
  rw [hy] at hsymbols
  exact Option.some.inj hsymbols

/-- The cotangent is the only operand of `flash_bwd` that the forward program does not know. -/
theorem calls_fusibleJointly {y : Replaced Float32} (hy : fusibleJointly = .ok y) :
    y.trace.nodes.map (fun n => (n.op.operator.name, n.inputs, n.outputs)) =
      [("flash_fwd", [some ⟨0⟩, some ⟨1⟩, some ⟨2⟩], [⟨3⟩, ⟨4⟩]),
        ("flash_bwd", [some ⟨9⟩, some ⟨0⟩, some ⟨1⟩, some ⟨2⟩, some ⟨3⟩, some ⟨4⟩],
          [⟨6⟩, ⟨7⟩, ⟨8⟩])] := by
  have hcalls : (fusibleJointly.map fun y => y.trace.nodes.map fun n =>
      (n.op.operator.name, n.inputs, n.outputs)).toOption =
        some [("flash_fwd", [some ⟨0⟩, some ⟨1⟩, some ⟨2⟩], [⟨3⟩, ⟨4⟩]),
          ("flash_bwd", [some ⟨9⟩, some ⟨0⟩, some ⟨1⟩, some ⟨2⟩, some ⟨3⟩, some ⟨4⟩],
            [⟨6⟩, ⟨7⟩, ⟨8⟩])] := by
    decide +kernel
  rw [hy] at hcalls
  exact Option.some.inj hcalls

/-- There is room for the buffers and outputs of both calls. -/
theorem affordable_fusibleJointly {y : Replaced Float32} (hy : fusibleJointly = .ok y) :
    y.trace.Affordable (builtins .standard 2 true) := by
  intro n hn b hb _ types outputs htyped
  have hcall := List.mem_map_of_mem (f := fun n => (n.op.operator.name, n.inputs, n.outputs)) hn
  have hinputs := htyped.inputTypes
  have houtputs := htyped.outputTypes
  rw [symbols_fusibleJointly hy] at hinputs houtputs
  simp only [calls_fusibleJointly hy, List.mem_cons, List.not_mem_nil, or_false,
    Prod.mk.injEq] at hcall
  simp only [builtins, List.mem_cons, List.not_mem_nil, or_false] at hb
  rcases hcall with ⟨-, hreads, hreturns⟩ | ⟨-, hreads, hreturns⟩
  · rw [hreads] at hinputs
    rw [hreturns] at houtputs
    obtain rfl : [some fusibleType, some fusibleType, some fusibleType] = types :=
      SymbolMap.reads_injective hinputs
    obtain rfl : [fusibleType, fusibleSums] = outputs :=
      List.map_injective_iff.2 (Option.some_injective _) houtputs
    rcases hb with rfl | rfl | rfl | rfl | rfl | rfl <;> exact ⟨by decide, by decide⟩
  · rw [hreads] at hinputs
    rw [hreturns] at houtputs
    obtain rfl : [some fusibleType, some fusibleType, some fusibleType, some fusibleType,
        some fusibleType, some fusibleSums] = types :=
      SymbolMap.reads_injective hinputs
    obtain rfl : [fusibleType, fusibleType, fusibleType] = outputs :=
      List.map_injective_iff.2 (Option.some_injective _) houtputs
    rcases hb with rfl | rfl | rfl | rfl | rfl | rfl <;> exact ⟨by decide, by decide⟩

/-- The joint program of one call of attention runs on all tensors and cotangents: it returns what
`flash_fwd` returns, and the gradients of query, key and value. -/
theorem joint_agrees_fusible :
    Holds (reference .standard 2 true) fusing.registry ∧ fusible.Recorded ∧
      (∀ n ∈ fusible.nodes, Replaceable n) ∧
      ∃ x y s s', (fusing.forward ⟨2⟩ fusible).apply fusing.start = (.ok x, s) ∧
        (fusing.joint ⟨1⟩ fusible).apply (fusing.after [⟨false, ⟨0⟩, fusible⟩]) = (.ok y, s') ∧
        y.trace.nodes.map (·.op.operator.name) = ["flash_fwd", "flash_bwd"] ∧
        Replaced.Agrees fusible x y ∧
        ∀ (tensors cotangents : List (Tensor Float32)) (verify : Bool),
          tensors.map Tensor.type = [fusibleType, fusibleType, fusibleType] →
          cotangents.map Tensor.type = [fusibleType] → ∃ outs gradients,
            x.trace.execute tensors verify = .ok outs ∧
            y.trace.execute (tensors ++ cotangents) verify = .ok (outs ++ gradients) ∧
            outs.map Tensor.type = [fusibleType] ∧
            gradients.map Tensor.type = [fusibleType, fusibleType, fusibleType] := by
  obtain ⟨journal, hregister⟩ :=
    apply_register (reference .standard 2 true : FlashKernel Float32) .standard true []
  have hregistry : Holds (reference .standard 2 true) fusing.registry := .fused hregister
  have hhistory : ∀ q ∈ ([] ++ [⟨false, ⟨0⟩, fusible⟩] : List (Request Float32)),
      ∀ n ∈ q.source.nodes, Replaceable n := by
    intro q hq
    rw [List.mem_singleton.1 hq]
    exact replaceable_fusible
  obtain ⟨x, y, s, s', hforward, hjoint, hagrees, hruns⟩ :=
    joint_agrees hregistry .empty .standard [] [⟨false, ⟨0⟩, fusible⟩] hhistory fusible
      recorded_fusible replaceable_fusible ⟨2⟩ ⟨1⟩
  have hy : fusibleJointly = .ok y := congrArg Prod.fst hjoint
  have hnames := congrArg (List.map Prod.fst) (calls_fusibleJointly hy)
  rw [List.map_map] at hnames
  exact ⟨hregistry, recorded_fusible, replaceable_fusible, x, y, s, s', hforward, hjoint, hnames,
    hagrees, hruns .standard 2 true rfl (affordable_fusibleJointly hy)⟩

end Flash

end TraceSubstitution
