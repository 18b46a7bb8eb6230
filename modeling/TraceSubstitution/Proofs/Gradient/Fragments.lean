import TraceSubstitution.Proofs.Gradient.Fragment
import TraceSubstitution.Proofs.Replacement.Progress

/-!
# The fragments of a joint program

Each call of the source leaves one fragment behind, and the program goes on with
everything it knew. If the gradient transforms that are selected are timely, the
fragments can be replayed from the last to the first: what they read is there by
then (`Replacer.LeaveAll`). If they are disciplined, a fragment also contributes to
no gradient that it or a later one asks for (`Fragment.InOrder`). The placeholders
of a fragment are distinct in any case.
-/

namespace TraceSubstitution

variable {α : Type}

theorem SymbolMap.mem_of_get?_insertAll {β : Type} {id : SymbolId} {x : β} :
    ∀ (ids : List SymbolId) (xs : List β) (m : SymbolMap β),
      (m.insertAll ids xs).get? id = some x → x ∈ xs ∨ m.get? id = some x
  | [], _, _, h => .inr h
  | _ :: _, [], _, h => .inr h
  | other :: ids, y :: xs, m, h => by
    rcases mem_of_get?_insertAll ids xs (m.insert other y) h with hmem | hget
    · exact .inl (List.mem_cons_of_mem y hmem)
    · rw [get?_insert] at hget
      split at hget
      · exact .inl (Option.some.inj hget ▸ List.mem_cons_self)
      · exact .inr hget

/-- A program under way between two calls: it is closed, what stands for the symbols of the source
is known, and the given other symbols are set aside. -/
structure Progress.Settled (p : Progress α) (others : List SymbolId) : Prop where
  capture : p.tracer.capture = none
  closed : Node.Closed p.tracer.inputs p.tracer.nodes
  distinct : p.tracer.Distinct others
  symbols : ∀ id s, p.symbols.get? id = some s → s.id ∈ p.tracer.known

namespace Progress

variable {p p' : Progress α} {others : List SymbolId} {n : Node α}
  {operands : List (Option Symbol)}

theorem settled_start {id : TraceId} {source : Trace α} (h : start id source = .ok p) :
    p.Settled [] := by
  obtain ⟨types, -, rfl⟩ := start_eq_ok_iff.1 h
  have hknown : ((Tracer.empty id : Tracer α).addInputs types).known =
      ((Tracer.empty id : Tracer α).fresh types).map Symbol.id := by
    simp [Tracer.known, Tracer.addInputs, Tracer.empty]
  have hempty : (Tracer.empty id : Tracer α).Distinct [] :=
    ⟨List.nodup_nil, fun _ hid => absurd hid List.not_mem_nil⟩
  refine ⟨rfl, trivial, hempty.extend rfl ?_, fun id' s hs => ?_⟩
  · rw [hknown]
    exact (List.append_nil _).symm ▸ .refl _
  · rw [hknown]
    rcases SymbolMap.mem_of_get?_insertAll _ _ _ hs with hmem | hget
    · exact List.mem_map_of_mem hmem
    · rw [SymbolMap.get?_empty] at hget
      cases hget

theorem Settled.mem_of_operandsFor (h : p.Settled others) (hoperands : p.operandsFor n = .ok operands)
    {s : Symbol} (hs : some s ∈ operands) : s.id ∈ p.tracer.known := by
  have hmap := operandsFor_eq_ok_iff.1 hoperands
  have hmem : some (some s) ∈ operands.map (·.map some) := List.mem_map.2 ⟨some s, hs, rfl⟩
  rw [← hmap] at hmem
  obtain ⟨x, -, hx⟩ := List.mem_map.1 hmem
  obtain ⟨id, -, hget⟩ := Option.map_eq_some_iff.1 hx
  exact h.symbols id s hget

theorem Settled.mem_of_symbolsFor (h : p.Settled others) {ids : List SymbolId}
    {symbols : List Symbol} (hsymbols : ids.mapM p.symbolFor = .ok symbols) {s : Symbol}
    (hs : s ∈ symbols) : s.id ∈ p.tracer.known := by
  have hmem : some s ∈ symbols.map some := List.mem_map_of_mem hs
  rw [← symbolsFor_eq_ok_iff.1 hsymbols] at hmem
  obtain ⟨id, -, hget⟩ := List.mem_map.1 hmem
  exact h.symbols id s hget

theorem Settled.captures (h : p.Settled others) :
    p.tracer.beginBackward.Captures others .empty where
  capture := rfl
  closed := h.closed
  distinct := by
    refine ⟨?_, ?_⟩
    · exact (List.append_nil others).symm ▸ h.distinct.nodup
    · exact (List.append_nil others).symm ▸ h.distinct.bound
  fragment := ⟨nofun, trivial⟩
  tainted := fun _ => Iff.rfl

theorem Settled.inOrder (h : p.Settled others) (hoperands : p.operandsFor n = .ok operands) :
    Recipe.InOrder p.tracer.symbols.length ⟨operands.reduceOption, [], []⟩
      p.tracer.beginBackward .empty where
  capture := rfl
  later := Nat.le_refl _
  primals := nofun
  targets := nofun
  operands := fun s hs => h.distinct.bound s.id <| List.mem_append_left _ <|
    h.mem_of_operandsFor hoperands (List.reduceOption_mem_iff.1 hs)
  recorded := nofun

end Progress

namespace Replacer

variable {r : Replacer α} {p p' : Progress α} {index : Nat} {n : Node α} {nodes : List (Node α)}
  {s s' : Journaled (Decisions α)} {fragment : Fragment α} {fragments : List (Fragment α)}

/-- A call in a joint program is a high-level call about which a decision is made. -/
theorem exists_decision_of_step
    (h : (r.step true p index n).apply s = (.ok (p', fragment), s')) :
    ∃ o operands d, p.operandsFor n = .ok operands ∧ r.decision? true p index n s = some d ∧
      d.op = o ∧ r.decidedStep true p o n operands d.record d.rule = .ok (p', fragment) := by
  cases hop : n.op with
  | kernel o =>
    rw [apply_step_kernel hop] at h
    exact nomatch (kernelStep_eq_ok_iff.1 (Prod.mk.inj h).1).1
  | highLevel o =>
    cases hoperands : p.operandsFor n with
    | error e =>
      rw [apply_step_of_operandsFor_error hop hoperands] at h
      exact nomatch (Prod.mk.inj h).1
    | ok operands =>
      rw [apply_step_highLevel hop hoperands] at h
      rcases hdispatch : (r.dispatch index o ⟨o.qualifiedName, operands, n.attrs⟩ true).apply s
        with ⟨e | ⟨record, rule⟩, s₁⟩
      · rw [hdispatch] at h
        exact nomatch (Prod.mk.inj h).1
      · rw [hdispatch] at h
        refine ⟨o, operands, ⟨o, true, ⟨o.qualifiedName, operands, n.attrs⟩, record, rule⟩, rfl,
          ?_, rfl, (Prod.mk.inj h).1⟩
        unfold decision?
        simp only [hop, hoperands, hdispatch]

/-- The gradient transforms that are selected by the given decisions are disciplined. -/
def SelectsDisciplined (r : Replacer α) (decisions : List (Decided α)) : Prop :=
  ∀ d ∈ decisions, ∀ T executor, r.gradientTransform d.op d.rule = .ok (T, executor) →
    T.Disciplined

/-- The gradient transforms that are selected by the given decisions are timely. -/
def SelectsTimely (r : Replacer α) (decisions : List (Decided α)) : Prop :=
  ∀ d ∈ decisions, ∀ T executor, r.gradientTransform d.op d.rule = .ok (T, executor) → T.Timely

theorem SelectsDisciplined.timely {decisions : List (Decided α)}
    (h : r.SelectsDisciplined decisions) : r.SelectsTimely decisions :=
  fun d hd T executor hT => (h d hd T executor hT).timely

/-- A call in a joint program runs the selected transform with an open capture, which leaves its
fragment behind. -/
theorem exists_run_of_step (h : (r.step true p index n).apply s = (.ok (p', fragment), s')) :
    ∃ d ∈ (r.decision? true p index n s).toList, ∃ T executor operands outputs t,
      r.gradientTransform d.op d.rule = .ok (T, executor) ∧ p.operandsFor n = .ok operands ∧
      (T ⟨d.op.qualifiedName, operands, n.attrs⟩).run.apply p.tracer.beginBackward =
        (.ok outputs, t) ∧ fragment = t.endBackward.1 ∧ p'.tracer = t.endBackward.2 ∧
      p'.symbols = p.symbols.insertAll n.outputs outputs := by
  obtain ⟨o, operands, d, hoperands, hd, rfl, hstep⟩ := exists_decision_of_step h
  obtain ⟨outputs, p₁, hreplacement, -, rfl⟩ := decidedStep_eq_ok_iff.1 hstep
  obtain ⟨T, executor, t, hT, hrun, -, rfl, rfl⟩ := jointOutputs_eq_ok_iff.1 hreplacement
  exact ⟨d, hd ▸ List.mem_singleton_self d, T, executor, operands, outputs, t, hT, hoperands, hrun,
    rfl, rfl, rfl⟩

/-- What a call of the source leaves behind. -/
structure Leaves (p p' : Progress α) (others : List SymbolId) (f : Fragment α) : Prop where
  settled : p'.Settled (others ++ f.own)
  grows : p.tracer.Extends p'.tracer
  closed : f.Closed p'.tracer.known

theorem leaves_of_step {others : List SymbolId} (hp : p.Settled others)
    (hselected : r.SelectsTimely (r.decision? true p index n s).toList)
    (h : (r.step true p index n).apply s = (.ok (p', fragment), s')) :
    Leaves p p' others fragment := by
  obtain ⟨d, hd, T, executor, operands, outputs, t, hT, hoperands, hrun, hfragment, htracer,
    hsymbols⟩ := exists_run_of_step h
  have htimely := hselected d hd T executor hT ⟨d.op.qualifiedName, operands, n.attrs⟩
    p.tracer.beginBackward rfl fun _ hs => hp.mem_of_operandsFor hoperands hs
  obtain ⟨c, hc, houtputs⟩ := hp.captures.run htimely hrun
  have hextends := Recipe.extends_of_run hrun
  have hown : fragment = c.toFragment := by
    rw [hfragment]
    simp [Tracer.endBackward, hc.capture]
  obtain ⟨tracer, symbols, report⟩ := p'
  obtain rfl : tracer = t.endBackward.2 := htracer
  obtain rfl : symbols = _ := hsymbols
  rw [hown]
  refine ⟨⟨rfl, hc.closed, ⟨hc.distinct.nodup, hc.distinct.bound⟩, fun id x hx => ?_⟩,
    ⟨hextends.id, hextends.symbols, hextends.inputs, hextends.nodes, ?_⟩, hc.fragment⟩
  · rcases SymbolMap.mem_of_get?_insertAll _ _ _ hx with hmem | hget
    · exact houtputs x hmem
    · exact hextends.known_subset (hp.symbols id x hget)
  · rw [hp.capture]
    rfl

/-- What the calls of the source leave behind. -/
structure LeaveAll (p p' : Progress α) (others : List SymbolId) (fragments : List (Fragment α)) :
    Prop where
  settled : p'.Settled (others ++ fragments.flatMap Fragment.own)
  grows : p.tracer.Extends p'.tracer
  closed : ∀ f ∈ fragments, f.Closed p'.tracer.known

theorem LeaveAll.nil {others : List SymbolId} (hp : p.Settled others) : LeaveAll p p others [] where
  settled := (List.append_nil others).symm ▸ hp
  grows := .refl p.tracer
  closed := nofun

theorem own_eq_nil (h : fragment.isEmpty = true) : fragment.own = [] := by
  simp only [Fragment.isEmpty, Bool.and_eq_true, List.isEmpty_iff] at h
  simp [Fragment.own, Fragment.diverted, Fragment.placeholderIds, h.1, h.2]

/-- The fragment of the first call goes in front of those of the calls after it, unless there is
nothing to be done. -/
theorem Leaves.cons {p₁ : Progress α} {others : List SymbolId} (h : Leaves p p₁ others fragment)
    (hrest : LeaveAll p₁ p' (others ++ fragment.own) fragments) :
    LeaveAll p p' others (if fragment.isEmpty then fragments else fragment :: fragments) := by
  have hsettled := hrest.settled
  have hgrows := h.grows.trans hrest.grows
  cases hempty : fragment.isEmpty with
  | true =>
    rw [own_eq_nil hempty, List.append_nil] at hsettled
    exact ⟨hsettled, hgrows, hrest.closed⟩
  | false =>
    refine ⟨?_, hgrows, List.forall_mem_cons.2
      ⟨h.closed.mono hrest.grows.known_subset, hrest.closed⟩⟩
    rwa [if_neg Bool.false_ne_true, List.flatMap_cons, ← List.append_assoc]

/-- What all calls of the source leave behind when timely transforms are selected. -/
theorem leaveAll_of_steps {others : List SymbolId} (hp : p.Settled others)
    (hselected : r.SelectsTimely (r.nodeDecisions true p index nodes s))
    (h : (r.steps true p index nodes).apply s = (.ok (p', fragments), s')) :
    LeaveAll p p' others fragments := by
  induction nodes generalizing p index s s' fragments others with
  | nil =>
    obtain ⟨rfl, rfl⟩ := Prod.mk.inj (Except.ok.inj (Prod.mk.inj h).1)
    exact .nil hp
  | cons n nodes ih =>
    obtain ⟨p₁, fragment, s₁, rest, hstep, hrest, rfl⟩ := steps_cons_eq_ok_iff.1 h
    rw [nodeDecisions, hstep] at hselected
    have hleaves := leaves_of_step hp (fun d hd => hselected d (List.mem_append_left _ hd)) hstep
    exact hleaves.cons
      (ih hleaves.settled (fun d hd => hselected d (List.mem_append_right _ hd)) hrest)

end Replacer

/-- The fragments of calls from the symbol number `first` on: what they ask the gradients of is
not older, and no fragment contributes to a gradient that it or a later one asks for. -/
structure Fragment.InOrder (first : Nat) (fragments : List (Fragment α)) : Prop where
  primals : ∀ f ∈ fragments, ∀ id ∈ f.primals, first ≤ id.index
  self : ∀ f ∈ fragments, f.Precedes f
  ordered : fragments.Pairwise Fragment.Precedes

theorem Fragment.InOrder.cons {first next : Nat} {f : Fragment α} {fragments : List (Fragment α)}
    (h : InOrder next fragments) (hle : first ≤ next) (hprimals : ∀ id ∈ f.primals, first ≤ id.index)
    (htargets : ∀ id ∈ f.targets, id.index < first) : InOrder first (f :: fragments) where
  primals := List.forall_mem_cons.2
    ⟨hprimals, fun g hg id hid => Nat.le_trans hle (h.primals g hg id hid)⟩
  self := by
    refine List.forall_mem_cons.2 ⟨fun id hid hprimal => ?_, h.self⟩
    exact Nat.not_le_of_lt (htargets id hid) (hprimals id hprimal)
  ordered := by
    refine List.pairwise_cons.2 ⟨fun g hg id hid hprimal => ?_, h.ordered⟩
    exact Nat.not_le_of_lt (htargets id hid) (Nat.le_trans hle (h.primals g hg id hprimal))

namespace Replacer

variable {r : Replacer α} {p p' : Progress α} {index : Nat} {n : Node α} {nodes : List (Node α)}
  {s s' : Journaled (Decisions α)} {fragment : Fragment α} {fragments : List (Fragment α)}

/-- A disciplined transform asks for gradients of new symbols and contributes to those of older
ones. -/
theorem order_of_step {others : List SymbolId} (hp : p.Settled others)
    (hselected : r.SelectsDisciplined (r.decision? true p index n s).toList)
    (h : (r.step true p index n).apply s = (.ok (p', fragment), s')) :
    (∀ id ∈ fragment.primals, p.tracer.symbols.length ≤ id.index) ∧
      ∀ id ∈ fragment.targets, id.index < p.tracer.symbols.length := by
  obtain ⟨d, hd, T, executor, operands, outputs, t, hT, hoperands, hrun, rfl, -, -⟩ :=
    exists_run_of_step h
  obtain ⟨k', c, hc⟩ := (hp.inOrder hoperands).run (hselected d hd T executor hT
    ⟨d.op.qualifiedName, operands, n.attrs⟩ p.tracer.beginBackward rfl) hrun
  have hfragment : t.endBackward.1 = c.toFragment := by
    simp [Tracer.endBackward, hc.capture]
  rw [hfragment]
  exact ⟨hc.primals, hc.targets⟩

/-- The fragments are in order when disciplined transforms are selected. -/
theorem inOrder_of_steps {others : List SymbolId} (hp : p.Settled others)
    (hselected : r.SelectsDisciplined (r.nodeDecisions true p index nodes s))
    (h : (r.steps true p index nodes).apply s = (.ok (p', fragments), s')) :
    Fragment.InOrder p.tracer.symbols.length fragments := by
  induction nodes generalizing p index s s' fragments others with
  | nil =>
    obtain ⟨rfl, rfl⟩ := Prod.mk.inj (Except.ok.inj (Prod.mk.inj h).1)
    exact ⟨nofun, nofun, .nil⟩
  | cons n nodes ih =>
    obtain ⟨p₁, fragment, s₁, rest, hstep, hrest, rfl⟩ := steps_cons_eq_ok_iff.1 h
    rw [nodeDecisions, hstep] at hselected
    have hfirst : r.SelectsDisciplined (r.decision? true p index n s).toList :=
      fun d hd => hselected d (List.mem_append_left _ hd)
    have hleaves := leaves_of_step hp hfirst.timely hstep
    obtain ⟨hprimals, htargets⟩ := order_of_step hp hfirst hstep
    have hle := hleaves.grows.symbols.length_le
    have horder := ih hleaves.settled (fun d hd => hselected d (List.mem_append_right _ hd)) hrest
    split
    · exact ⟨fun f hf id hid => Nat.le_trans hle (horder.primals f hf id hid), horder.self,
        horder.ordered⟩
    · exact horder.cons hle hprimals htargets

end Replacer

/-- While a capture is open, its placeholders are distinct symbols. -/
def Tracer.HandsOut (t : Tracer α) : Prop :=
  ∃ c, t.capture = some c ∧ c.toFragment.placeholderIds.Nodup ∧
    ∀ id ∈ c.toFragment.placeholderIds, id.index < t.symbols.length

namespace Tracer.HandsOut

variable {t t' : Tracer α}

theorem call (h : t.HandsOut) {op : NodeOp α} {operands : List (Option Symbol)} {attrs : Attrs}
    {results : List Symbol} (hcall : (Tracer.call op operands attrs).apply t = (.ok results, t')) :
    t'.HandsOut := by
  obtain ⟨c, hc, hnodup, hbound⟩ := h
  have hle := (extends_of_call hcall).symbols.length_le
  obtain ⟨n, types, -, -, -, rfl⟩ := call_of_capture hc hcall
  cases hdiverts : t.diverts operands with
  | true =>
    rw [hdiverts] at hle
    exact ⟨c.divert n, rfl, hnodup, fun id hid => Nat.lt_of_lt_of_le (hbound id hid) hle⟩
  | false =>
    rw [hdiverts] at hle
    exact ⟨c, hc, hnodup, fun id hid => Nat.lt_of_lt_of_le (hbound id hid) hle⟩

theorem incomingGradient (h : t.HandsOut) {primal gradient : Symbol}
    (hincoming : (Tracer.incomingGradient primal).apply t = (.ok gradient, t')) : t'.HandsOut := by
  obtain ⟨c, hc, hnodup, hbound⟩ := h
  obtain ⟨-, c', hc', ⟨_, -, -, rfl⟩ | ⟨-, -, rfl⟩⟩ := incomingGradient_eq_ok_iff.1 hincoming
  · exact ⟨c, hc, hnodup, hbound⟩
  · obtain rfl : c' = c := Option.some.inj (hc'.symm.trans hc)
    refine ⟨_, rfl, ?_, fun id hid => ?_⟩
    · rw [placeholderIds_addPlaceholder]
      refine List.nodup_append.2 ⟨hnodup, List.nodup_cons.2 ⟨List.not_mem_nil, List.nodup_nil⟩,
        fun id hid id' hid' heq => ?_⟩
      have hlt := hbound id hid
      rw [heq, List.mem_singleton.1 hid'] at hlt
      exact Nat.lt_irrefl _ hlt
    · rw [placeholderIds_addPlaceholder] at hid
      have hlength : (t.declare [primal.type]).symbols.length = t.symbols.length + 1 := by
        simp [declare]
      change id.index < (t.declare [primal.type]).symbols.length
      rw [hlength]
      rcases List.mem_append.1 hid with hid | hid
      · exact Nat.lt_succ_of_lt (hbound id hid)
      · rw [List.mem_singleton.1 hid]
        exact Nat.lt_succ_self _

theorem accumulateGradient (h : t.HandsOut) {target contribution : Symbol}
    (haccumulate : (Tracer.accumulateGradient target contribution).apply t = (.ok (), t')) :
    t'.HandsOut := by
  obtain ⟨c, hc, hnodup, hbound⟩ := h
  obtain ⟨-, -, -, c', hc', rfl⟩ := accumulateGradient_eq_ok_iff.1 haccumulate
  obtain rfl : c' = c := Option.some.inj (hc'.symm.trans hc)
  exact ⟨_, rfl, hnodup, hbound⟩

/-- Every run of a recipe hands out distinct placeholders. -/
theorem nodup_of_run {r : Recipe α (List Symbol)} {outputs : List Symbol}
    (hrun : r.run.apply t.beginBackward = (.ok outputs, t')) :
    t'.endBackward.1.placeholderIds.Nodup := by
  have hstart : t.beginBackward.HandsOut := ⟨.empty, rfl, List.nodup_nil, nofun⟩
  obtain ⟨c, hc, hnodup, -⟩ := Recipe.keeps_of_run (fun _ _ _ _ _ _ ht hcall => ht.call hcall)
    (fun _ _ _ _ ht hincoming => ht.incomingGradient hincoming)
    (fun _ _ _ _ ht haccumulate => ht.accumulateGradient haccumulate) hstart hrun
  unfold endBackward
  rw [hc]
  exact hnodup

end Tracer.HandsOut

namespace Replacer

variable {r : Replacer α} {p p' : Progress α} {index : Nat} {nodes : List (Node α)}
  {s s' : Journaled (Decisions α)} {fragments : List (Fragment α)}

/-- Whatever the transforms do: when all calls are done no capture is open, and the placeholders of
every fragment are distinct. -/
theorem nodup_of_steps (hp : p.tracer.capture = none)
    (h : (r.steps true p index nodes).apply s = (.ok (p', fragments), s')) :
    p'.tracer.capture = none ∧ ∀ f ∈ fragments, f.placeholderIds.Nodup := by
  induction nodes generalizing p index s s' fragments with
  | nil =>
    obtain ⟨rfl, rfl⟩ := Prod.mk.inj (Except.ok.inj (Prod.mk.inj h).1)
    exact ⟨hp, nofun⟩
  | cons n nodes ih =>
    obtain ⟨p₁, fragment, s₁, rest, hstep, hrest, rfl⟩ := steps_cons_eq_ok_iff.1 h
    obtain ⟨d, -, T, executor, operands, outputs, t, -, -, hrun, rfl, htracer, -⟩ :=
      exists_run_of_step hstep
    obtain ⟨hp', hnodup⟩ := ih (congrArg Tracer.capture htracer) hrest
    refine ⟨hp', ?_⟩
    split
    · exact hnodup
    · exact List.forall_mem_cons.2 ⟨Tracer.HandsOut.nodup_of_run hrun, hnodup⟩

end Replacer

end TraceSubstitution
