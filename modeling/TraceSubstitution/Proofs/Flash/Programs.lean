import Mathlib.Data.List.Pairwise
import TraceSubstitution.Proofs.Flash.Runs

/-!
# Programs with the fused executor

`Flash.Replaces` says what the new program of a source of additions and attention
consists of: one call for every call of the source and, with gradients, one call
of `flash_bwd` for every call of `flash_fwd`. The logarithms that `flash_fwd`
returns are read by this call only. `Flash.exists_answer` says that there always is
such a program.
-/

namespace TraceSubstitution

variable {α : Type}

/-- Other calls do not matter for a property that they do not have. -/
theorem Node.Interleaved.filter_eq {Other : Node α → Prop} {calls nodes : List (Node α)}
    (h : Interleaved Other calls nodes) {q : Node α → Bool} (hq : ∀ n, Other n → q n = false) :
    nodes.filter q = calls.filter q := by
  induction h with
  | nil => rfl
  | call n _ ih => rw [List.filter_cons, List.filter_cons, ih]
  | other hn _ ih => rw [List.filter_cons, hq _ hn, ih]; rfl

namespace Flash

/-- The call of `flash_bwd` that belongs to a fused turn, on some gradient. -/
def Turn.Reverses (ops : Operators α) (τ : Turn α) (n : Node α) : Prop :=
  ∃ gradient, τ.Reversed ops gradient n

/-- Whether an operator is called. -/
def calls (o : Operator α) (n : Node α) : Bool := n.op.operator.id = o.id

variable [Scalar α]

/-- What the new program of a source consists of. -/
structure Replaces (ops : Operators α) (available gradient : Bool) (source : Trace α)
    (turns : List (Turn α)) (backward : List (Node α)) (x : Replaced α) : Prop where
  /-- Every call of the source has its turn. -/
  calls : turns.map Turn.call = source.nodes
  /-- The turns are reported in order. -/
  report : x.report = turns.map Turn.record
  order : x.report.map (·.node) = List.range source.nodes.length
  /-- Every call is recorded again or becomes `flash_fwd`. -/
  settled : ∀ τ ∈ turns, τ.Kept ∨ τ.Fused ops available source.symbols
  /-- The calls of the turns come first. There is a backward part only with gradients. -/
  nodes : x.trace.nodes = turns.map Turn.node ++ backward
  plain : gradient = false → backward = []
  /-- Every fused turn has one call of `flash_fwd`. -/
  fused : x.trace.nodes.filter (Flash.calls ops.forward) =
    (turns.filter Turn.fused).map Turn.node
  /-- With gradients every fused turn has one call of `flash_bwd`. -/
  reversed : List.Forall₂ (Turn.Reverses ops)
    (if gradient then (turns.filter Turn.fused).reverse else [])
    (x.trace.nodes.filter (Flash.calls ops.backward))
  /-- The logarithms of a fused turn are read by its own call of `flash_bwd` only. -/
  hidden : ∀ τ ∈ turns, ∀ lse ∈ τ.hidden, lse ∉ x.trace.outputs ∧
    ∀ n ∈ x.trace.nodes, some lse ∈ n.inputs → n ∈ backward ∧ τ.Reverses ops n
  /-- The fused operators are called only if the kernel is available. -/
  kernels : ∀ n ∈ x.trace.nodes, n.op.operator ∈ (Core.operators : List (Operator α)) ∨
    available = true ∧ (n.op = .kernel ops.forward ∨ n.op = .kernel ops.backward)

section Backward

variable {kernel : FlashKernel α} {available : Bool} {allowed : SymbolId → Prop}
  {turns : List (Turn α)} {parts : List (List (Node α))}

theorem reverses_of_gives
    (h : List.Forall₂ (Turn.Gives (registeredOperators kernel available) allowed) turns parts) :
    List.Forall₂ (Turn.Reverses (registeredOperators kernel available)) (turns.filter Turn.fused)
      (parts.flatten.filter (calls (registeredOperators kernel available).backward)) := by
  induction h with
  | nil => exact .nil
  | @cons τ part turns parts hgives _ ih =>
    rw [List.flatten_cons, List.filter_append, List.filter_cons]
    rcases hgives with ⟨hfused, hpart⟩ | ⟨hfused, gradient, n, -, rfl, hn⟩
    · have hnone : part.filter (calls (registeredOperators kernel available).backward) = [] := by
        refine List.filter_eq_nil_iff.2 fun n hn => ?_
        unfold calls
        rw [(hpart n hn).1]
        exact Bool.false_ne_true
      rw [hfused, hnone]
      exact ih
    · have hone : [n].filter (calls (registeredOperators kernel available).backward) = [n] := by
        refine List.filter_eq_self.2 fun m hm => ?_
        unfold calls
        rw [List.mem_singleton.1 hm, hn.op]
        rfl
      rw [hfused, hone]
      exact .cons ⟨gradient, hn⟩ ih

theorem exists_gives
    (h : List.Forall₂ (Turn.Gives (registeredOperators kernel available) allowed) turns parts)
    {n : Node α} (hn : n ∈ parts.flatten) : ∃ τ ∈ turns, ∃ part,
      τ.Gives (registeredOperators kernel available) allowed part ∧ n ∈ part := by
  induction h with
  | nil => exact absurd hn List.not_mem_nil
  | @cons τ part turns parts hgives _ ih =>
    rcases List.mem_append.1 hn with hn | hn
    · exact ⟨τ, List.mem_cons_self, part, hgives, hn⟩
    · obtain ⟨τ', hτ', hgives'⟩ := ih hn
      exact ⟨τ', List.mem_cons_of_mem τ hτ', hgives'⟩

end Backward

section Turned

variable {kernel : FlashKernel α} {available gradient : Bool} {source : List TensorType}
  {p₀ p : Progress α} {known : List SymbolId} {nodes backward : List (Node α)}
  {turns : List (Turn α)} {fragments : List (Fragment α)} {parts : List (List (Node α))}
  {τ : Turn α} {n : Node α}

theorem Turn.Kept.mem_operators (h : τ.Kept) (hop : Replaceable τ.call) :
    τ.node.op.operator ∈ (Core.operators : List (Operator α)) := by
  rw [h.op]
  rcases hop with hop | hop
  · rw [hop]
    exact List.mem_cons_self
  · rw [hop]
    exact List.mem_cons_of_mem _ (List.mem_cons_of_mem _ List.mem_cons_self)

theorem calls_eq_false_of_mem {o : Operator α} (ho : 4 ≤ o.id.number)
    (h : n.op.operator ∈ (Core.operators : List (Operator α))) : calls o n = false := by
  have hlt : n.op.operator.id.number < 4 := by
    have hall : ∀ c ∈ (Core.operators : List (Operator α)), c.id.number < 4 := by
      simp [Core.operators, Core.add, Core.zerosLike, Attention.operator,
        Attention.backwardOperator]
    exact hall _ h
  refine decide_eq_false fun heq => ?_
  rw [heq] at hlt
  exact absurd hlt (Nat.not_lt.2 ho)

theorem mem_operators_of_gathers (h : n.Gathers) :
    n.op.operator ∈ (Core.operators : List (Operator α)) := by
  rcases h with ⟨_, _, _, rfl⟩ | ⟨_, _, rfl⟩
  · exact List.mem_cons_self
  · exact List.mem_cons_of_mem _ List.mem_cons_self

omit [Scalar α] in
/-- Turns have private symbols of their own. -/
theorem Turn.eq_of_mem_hidden (hnodup : (turns.flatMap Turn.hidden).Nodup) {τ' : Turn α}
    (hτ : τ ∈ turns) (hτ' : τ' ∈ turns) {id : SymbolId} (hid : id ∈ τ.hidden)
    (hid' : id ∈ τ'.hidden) : τ = τ' := by
  by_contra hne
  have hdisjoint := (List.nodup_flatMap.1 hnodup).2
  have hsymmetric : Std.Symm (Function.onFun List.Disjoint (Turn.hidden (α := α))) :=
    ⟨fun _ _ h _ hx hy => h hy hx⟩
  exact hdisjoint.forall hτ hτ' hne hid hid'

theorem calls_node (hop : Replaceable τ.call)
    (h : τ.Kept ∨ τ.Fused (registeredOperators kernel available) available source) :
    calls (registeredOperators kernel available).forward τ.node = τ.fused ∧
      calls (registeredOperators kernel available).backward τ.node = false := by
  rcases h with h | h
  · have hmem := h.mem_operators hop
    refine ⟨?_, calls_eq_false_of_mem (Nat.le_succ 4) hmem⟩
    rw [h.fused_eq]
    exact calls_eq_false_of_mem (Nat.le_refl 4) hmem
  · unfold calls
    rw [h.op, h.fused_eq]
    exact ⟨rfl, rfl⟩

theorem gathers_or_gives {allowed : SymbolId → Prop}
    (hgives : List.Forall₂ (Turn.Gives (registeredOperators kernel available) allowed)
      (if gradient then turns.reverse else []) parts)
    (hbackward : Node.Interleaved (Node.GathersFrom allowed) parts.flatten backward)
    (hn : n ∈ backward) : n.GathersFrom allowed ∨ ∃ τ ∈ turns, ∃ part,
      τ.Gives (registeredOperators kernel available) allowed part ∧ n ∈ part := by
  rcases hbackward.mem_or hn with hmem | hgathers
  · obtain ⟨τ, hτ, hpart⟩ := exists_gives hgives hmem
    cases gradient with
    | false => exact absurd hτ List.not_mem_nil
    | true => exact .inr ⟨τ, List.mem_reverse.1 hτ, hpart⟩
  · exact .inl hgathers

theorem kernels_of_gathers_or_gives {allowed : SymbolId → Prop}
    (hsettled : ∀ τ ∈ turns,
      τ.Kept ∨ τ.Fused (registeredOperators kernel available) available source)
    (hn : n.GathersFrom allowed ∨ ∃ τ ∈ turns, ∃ part,
      τ.Gives (registeredOperators kernel available) allowed part ∧ n ∈ part) :
    n.op.operator ∈ (Core.operators : List (Operator α)) ∨
      available = true ∧ n.op = .kernel (registeredOperators kernel available).backward := by
  rcases hn with hgathers | ⟨τ, hτ, part, ⟨-, hpart⟩ | ⟨hfused, _, m, -, rfl, hm⟩, hn⟩
  · exact .inl (mem_operators_of_gathers hgathers.1)
  · refine .inl ?_
    rw [(hpart n hn).1]
    exact List.mem_cons_of_mem _
      (List.mem_cons_of_mem _ (List.mem_cons_of_mem _ List.mem_cons_self))
  · rw [List.mem_singleton.1 hn]
    rcases hsettled τ hτ with h | h
    · rw [h.fused_eq] at hfused
      exact absurd hfused Bool.false_ne_true
    · exact .inr ⟨h.available, hm.op⟩

/-- A call of the backward part that reads a private symbol is the call of `flash_bwd` of the turn
that the symbol belongs to. -/
theorem reverses_of_reads
    (htracks : p.Tracks source known (turns.flatMap Turn.hidden))
    (hnodes : p.tracer.nodes = turns.map Turn.node)
    (hreturns : ∀ τ ∈ turns, ∃ output, τ.node.outputs = output :: τ.hidden ∧
      p.tracer.Shows (turns.flatMap Turn.hidden) output)
    (hn : n.GathersFrom (· ∉ turns.flatMap Turn.hidden) ∨ ∃ τ ∈ turns, ∃ part,
      τ.Gives (registeredOperators kernel available) (· ∉ turns.flatMap Turn.hidden) part ∧ n ∈ part)
    (hτ : τ ∈ turns) {lse : SymbolId} (hlse : lse ∈ τ.hidden) (hreads : some lse ∈ n.inputs) :
    τ.Reverses (registeredOperators kernel available) n := by
  have hmem : lse ∈ turns.flatMap Turn.hidden := List.mem_flatMap.2 ⟨τ, hτ, hlse⟩
  rcases hn with hgathers | ⟨τ', hτ', part, ⟨-, hpart⟩ | ⟨-, gradient, m, hgradient, rfl, hm⟩, hn⟩
  · exact absurd hmem (hgathers.2 lse hreads)
  · exact absurd hmem ((hpart n hn).2 lse hreads)
  · obtain rfl := List.mem_singleton.1 hn
    rw [hm.inputs] at hreads
    rcases List.mem_cons.1 hreads with heq | hreads
    · exact absurd (Option.some.inj heq ▸ hmem) hgradient
    · rcases List.mem_append.1 hreads with hinput | houtput
      · have hnode : τ'.node ∈ p.tracer.nodes := hnodes ▸ List.mem_map_of_mem hτ'
        exact absurd hmem (htracks.reads τ'.node hnode lse hinput).2
      · obtain ⟨output, houtputs, hshown⟩ := hreturns τ' hτ'
        rw [houtputs] at houtput
        obtain ⟨id, hid, rfl⟩ : ∃ id ∈ output :: τ'.hidden, id = lse := by
          simpa using houtput
        rcases List.mem_cons.1 hid with rfl | hid
        · exact absurd hmem hshown.2
        · obtain rfl := Turn.eq_of_mem_hidden htracks.nodup hτ hτ' hlse hid
          exact ⟨gradient, hm⟩

/-- The calls of `flash_fwd` that take the place of calls of the source are those of the fused
turns, and none of them calls `flash_bwd`. -/
theorem filter_map_node (hcalls : ∀ τ ∈ turns, Replaceable τ.call)
    (hsettled : ∀ τ ∈ turns,
      τ.Kept ∨ τ.Fused (registeredOperators kernel available) available source) :
    (turns.map Turn.node).filter (calls (registeredOperators kernel available).forward) =
        (turns.filter Turn.fused).map Turn.node ∧
      (turns.map Turn.node).filter (calls (registeredOperators kernel available).backward) = [] := by
  have hturn := fun τ (hτ : τ ∈ turns) => calls_node (hcalls τ hτ) (hsettled τ hτ)
  rw [List.filter_map, List.filter_map, List.map_eq_nil_iff, List.filter_eq_nil_iff]
  refine ⟨congrArg _ (List.filter_congr fun τ hτ => (hturn τ hτ).1), fun τ hτ htrue => ?_⟩
  exact absurd ((hturn τ hτ).2.symm.trans htrue) Bool.false_ne_true

theorem filter_backward_eq_nil
    (hkernels : ∀ n ∈ backward, n.op.operator ∈ (Core.operators : List (Operator α)) ∨
      available = true ∧ n.op = .kernel (registeredOperators kernel available).backward) :
    backward.filter (calls (registeredOperators kernel available).forward) = [] := by
  refine List.filter_eq_nil_iff.2 fun n hn => ?_
  rcases hkernels n hn with hmem | ⟨-, hop⟩
  · rw [calls_eq_false_of_mem (Nat.le_refl 4) hmem]
    exact Bool.false_ne_true
  · unfold calls
    rw [hop]
    exact Bool.false_ne_true

/-- The calls of `flash_bwd` in the backward part, in the order of the replayed turns. -/
theorem reversed_of_gives {allowed : SymbolId → Prop}
    (hgives : List.Forall₂ (Turn.Gives (registeredOperators kernel available) allowed)
      (if gradient then turns.reverse else []) parts)
    (hbackward : Node.Interleaved (Node.GathersFrom allowed) parts.flatten backward) :
    List.Forall₂ (Turn.Reverses (registeredOperators kernel available))
      (if gradient then (turns.filter Turn.fused).reverse else [])
      (backward.filter (calls (registeredOperators kernel available).backward)) := by
  have hgathers : ∀ n : Node α, n.GathersFrom allowed →
      calls (registeredOperators kernel available).backward n = false := fun n hn =>
    calls_eq_false_of_mem (Nat.le_succ 4) (mem_operators_of_gathers hn.1)
  rw [hbackward.filter_eq hgathers]
  have hreverses := reverses_of_gives hgives
  cases gradient with
  | false => exact hreverses
  | true =>
    rw [if_pos rfl, List.filter_reverse] at hreverses
    exact hreverses

/-- What a source becomes, given what becomes of its calls and what is put behind them. -/
theorem replaces_of_turned {source : Trace α} {x : Replaced α}
    (h : Turned (registeredOperators kernel available) available source.symbols gradient p₀ 0 []
      source.nodes turns p fragments)
    (htracks : p.Tracks source.symbols known (turns.flatMap Turn.hidden))
    (hreport : p₀.report = []) (hempty : p₀.tracer.nodes = [])
    (hops : ∀ n ∈ source.nodes, Replaceable n)
    (hgives : List.Forall₂ (Turn.Gives (registeredOperators kernel available)
      (· ∉ turns.flatMap Turn.hidden)) (if gradient then turns.reverse else []) parts)
    (hbackward : Node.Interleaved (Node.GathersFrom (· ∉ turns.flatMap Turn.hidden)) parts.flatten
      backward)
    (hplain : gradient = false → backward = [])
    (hnodes : x.trace.nodes = p.tracer.nodes ++ backward) (hx : x.report = p.report)
    (houtputs : ∀ id ∈ x.trace.outputs, id ∉ turns.flatMap Turn.hidden) :
    Replaces (registeredOperators kernel available) available gradient source turns backward x := by
  have hforward : p.tracer.nodes = turns.map Turn.node := by
    rw [h.nodes, hempty, List.nil_append]
  have hrecords : x.report = turns.map Turn.record := by
    rw [hx, h.report, hreport, List.nil_append]
  have hcalls : ∀ τ ∈ turns, Replaceable τ.call := fun τ hτ =>
    hops τ.call (h.calls ▸ List.mem_map_of_mem hτ)
  have hlater := fun n (hn : n ∈ backward) => gathers_or_gives hgives hbackward hn
  have hkernels := fun n (hn : n ∈ backward) => kernels_of_gathers_or_gives h.settled (hlater n hn)
  have hfilter := filter_map_node hcalls h.settled
  refine
    { calls := h.calls
      report := hrecords
      order := ?_
      settled := h.settled
      nodes := hforward ▸ hnodes
      plain := hplain
      fused := ?_
      reversed := ?_
      hidden := ?_
      kernels := ?_ }
  · rw [hrecords, List.map_map, List.range_eq_range']
    exact h.order
  · rw [hnodes, List.filter_append, filter_backward_eq_nil hkernels, List.append_nil, hforward]
    exact hfilter.1
  · rw [hnodes, List.filter_append, hforward, hfilter.2, List.nil_append]
    exact reversed_of_gives hgives hbackward
  · intro τ hτ lse hlse
    have hmem : lse ∈ turns.flatMap Turn.hidden := List.mem_flatMap.2 ⟨τ, hτ, hlse⟩
    refine ⟨fun houtput => houtputs lse houtput hmem, fun n hn hreads => ?_⟩
    rw [hnodes] at hn
    rcases List.mem_append.1 hn with hn | hn
    · exact absurd hmem (htracks.reads n hn lse hreads).2
    · exact ⟨hn, reverses_of_reads htracks hforward h.returns (hlater n hn) hτ hlse hreads⟩
  · intro n hn
    rw [hnodes, hforward] at hn
    rcases List.mem_append.1 hn with hn | hn
    · obtain ⟨τ, hτ, rfl⟩ := List.mem_map.1 hn
      rcases h.settled τ hτ with hkept | hfused
      · exact .inl (hkept.mem_operators (hcalls τ hτ))
      · exact .inr ⟨hfused.available, .inl hfused.op⟩
    · exact (hkernels n hn).imp_right fun hop => ⟨hop.1, .inr hop.2⟩

end Turned

/-- The fragments that turns leave behind give calls when they are replayed. -/
theorem gives_of_leaves {ops : Operators α} {t : Tracer α} {hidden : List SymbolId}
    {turns : List (Turn α)} {fragments : List (Fragment α)}
    (h : List.Forall₂ (Turn.Leaves ops t hidden) turns fragments) {allowed : SymbolId → Prop}
    {symbols : List TensorType} (hallowed : ∀ id, t.Shows hidden id → allowed id)
    {replayed : List (Fragment α × SymbolMap SymbolId)} (hmap : replayed.map Prod.fst = fragments)
    (hrenames : ∀ x ∈ replayed, Backward.Renames allowed symbols x.1.placeholderIds x.2) :
    List.Forall₂ (Turn.Gives ops allowed) turns (replayed.map fun x => x.1.calls x.2) := by
  induction h generalizing replayed with
  | nil =>
    rw [List.map_eq_nil_iff.1 hmap]
    exact .nil
  | cons hleaves _ ih =>
    obtain ⟨x, replayed, rfl, rfl, hrest⟩ := List.map_eq_cons_iff.1 hmap
    obtain ⟨hx, hrenames⟩ := List.forall_mem_cons.1 hrenames
    exact .cons (hleaves.gives allowed symbols x.2 hallowed hx) (ih hrest hrenames)

theorem fits_of_leaves {ops : Operators α} {t : Tracer α} {hidden : List SymbolId}
    {turns : List (Turn α)} {fragments : List (Fragment α)}
    (h : List.Forall₂ (Turn.Leaves ops t hidden) turns fragments) :
    ∀ f ∈ fragments, f.Typed t.symbols ∧ f.Public (t.Shows hidden) := by
  induction h with
  | nil => exact fun f hf => absurd hf List.not_mem_nil
  | cons hleaves _ ih => exact List.forall_mem_cons.2 ⟨⟨hleaves.typed, hleaves.shown⟩, ih⟩

variable {kernel : FlashKernel α} {config : FlashConfig} {available : Bool}
  {overrides : Overrides} {options : ReplacerOptions}

section Conclude

variable {q : Request α} {p₀ p : Progress α} {known : List SymbolId} {turns : List (Turn α)}
  {fragments : List (Fragment α)} {outputs inputs : List Symbol}

theorem exists_forward
    (hturned : Turned (registeredOperators kernel available) available q.source.symbols false p₀ 0 []
      q.source.nodes turns p fragments)
    (htracks : p.Tracks q.source.symbols known (turns.flatMap Turn.hidden))
    (hreport : p₀.report = []) (hempty : p₀.tracer.nodes = [])
    (hops : ∀ n ∈ q.source.nodes, Replaceable n)
    (hshown : ∀ s ∈ outputs, p.tracer.owns s = true ∧ s.id ∉ turns.flatMap Turn.hidden) :
    ∃ trace, p.tracer.finish outputs = .ok trace ∧
      Replaces (registeredOperators kernel available) available false q.source turns []
        ⟨trace, p.report⟩ := by
  refine ⟨_, Tracer.finish_eq_ok_iff.2 ⟨htracks.capture, fun s hs => (hshown s hs).1, rfl⟩,
    replaces_of_turned hturned htracks hreport hempty hops .nil .nil (fun _ => rfl)
      (List.append_nil _).symm rfl fun id hid => ?_⟩
  obtain ⟨s, hs, rfl⟩ := List.mem_map.1 hid
  exact (hshown s hs).2

/-- The backward part of a joint program is built, and the program is finished. -/
theorem exists_joint
    (hturned : Turned (registeredOperators kernel available) available q.source.symbols true p₀ 0 []
      q.source.nodes turns p fragments)
    (htracks : p.Tracks q.source.symbols known (turns.flatMap Turn.hidden))
    (hreport : p₀.report = []) (hempty : p₀.tracer.nodes = [])
    (hops : ∀ n ∈ q.source.nodes, Replaceable n)
    (hshown : ∀ s ∈ outputs, p.tracer.owns s = true ∧ s.id ∉ turns.flatMap Turn.hidden)
    (howned : ∀ s ∈ inputs, p.tracer.owns s = true ∧ s.id ∉ turns.flatMap Turn.hidden) :
    ∃ gradients b' trace backward,
      (Backward.build outputs inputs fragments).outcome (p.tracer, .empty) = .ok (gradients, b') ∧
        b'.1.finish (outputs ++ gradients) = .ok trace ∧
        Replaces (registeredOperators kernel available) available true q.source turns backward
          ⟨trace, p.report⟩ := by
  have hleaves := hturned.leaves rfl
  rw [List.nil_append] at hleaves
  have hfits := fits_of_leaves hleaves
  have hfresh : ∀ id : SymbolId, p.tracer.symbols.length ≤ id.index →
      id ∉ turns.flatMap Turn.hidden := fun id hid hmem =>
    absurd (htracks.bound id hmem) (Nat.not_lt.2 hid)
  obtain ⟨replayed, gradients, b', hbuild, hreplayed, hcapture, hadds, hrenames, hgradients⟩ :=
    Backward.build_eq_ok htracks.capture hfresh (fun s hs => (hshown s hs).1) howned
      (fun f hf => (hfits f hf).1) fun f hf => (hfits f hf).2.mono fun _ hid => hid.2
  have hgives := gives_of_leaves (List.forall₂_reverse_iff.2 hleaves) (fun _ hid => hid.2) hreplayed
    hrenames
  obtain ⟨backward, hnodes, hbackward⟩ := hadds.nodes
  have hall : ∀ s ∈ outputs ++ gradients, b'.1.owns s = true ∧
      s.id ∉ turns.flatMap Turn.hidden := by
    intro s hs
    rcases List.mem_append.1 hs with hs | hs
    · exact ⟨hadds.owns (hshown s hs).1, (hshown s hs).2⟩
    · exact hgradients s hs
  refine ⟨gradients, b', _, backward, Act.outcome_eq_ok_iff.2 hbuild,
    Tracer.finish_eq_ok_iff.2 ⟨hcapture, fun s hs => (hall s hs).1, rfl⟩,
    replaces_of_turned hturned htracks hreport hempty hops hgives hbackward
      (fun h => absurd h Bool.false_ne_true.symm) hnodes rfl fun id hid => ?_⟩
  obtain ⟨s, hs, rfl⟩ := List.mem_map.1 hid
  exact (hall s hs).2

end Conclude

/-- A source of additions and calls of attention is replaced in either mode, whatever is remembered,
as long as that is right. -/
theorem exists_answer {s : Journaled (Decisions α)}
    (hs : s.state.Right (replacer kernel config available overrides options) sources)
    (q : Request α) (hrecorded : q.source.Recorded) (hops : ∀ n ∈ q.source.nodes, Replaceable n) :
    ∃ x turns backward,
      (((replacer kernel config available overrides options).answer q).apply s).1 = .ok x ∧
        Replaces (registeredOperators kernel available) available q.gradient q.source turns backward
          x := by
  obtain ⟨p₀, hstart, hreport, hempty, htracks₀⟩ := Progress.exists_start q.id hrecorded
  obtain ⟨p, fragments, s', turns, hsteps, htracks, hturned⟩ := exists_steps hs htracks₀ hops
    hrecorded.typed hrecorded.closed.1 q.gradient 0
  rw [List.nil_append] at htracks
  obtain ⟨outputs, houtputs, hshown⟩ := htracks.exists_symbols hrecorded.closed.2
  obtain ⟨inputs, hinputs, howned⟩ := htracks.exists_symbols (List.subset_append_left _ _)
  have hconclude : ∃ trace backward, Replacer.conclude q p fragments = .ok trace ∧
      Replaces (registeredOperators kernel available) available q.gradient q.source turns backward
        ⟨trace, p.report⟩ := by
    unfold Replacer.conclude
    rw [houtputs, ok_bind]
    cases hgradient : q.gradient with
    | false =>
      rw [hgradient] at hturned
      obtain ⟨trace, hfinish, hreplaces⟩ := exists_forward hturned htracks hreport hempty hops hshown
      exact ⟨trace, [], hfinish, hreplaces⟩
    | true =>
      rw [hgradient] at hturned
      obtain ⟨gradients, b', trace, backward, hbuild, hfinish, hreplaces⟩ :=
        exists_joint hturned htracks hreport hempty hops hshown howned
      refine ⟨trace, backward, ?_, hreplaces⟩
      simp only [↓reduceIte, hinputs, ok_bind, hbuild, hfinish]
  obtain ⟨trace, backward, hconclude, hreplaces⟩ := hconclude
  refine ⟨⟨trace, p.report⟩, turns, backward, ?_, hreplaces⟩
  rw [Replacer.answer_eq]
  simp only [Act.apply_bind, Act.apply_lift, hstart, hsteps, hconclude]
  rfl

end Flash

end TraceSubstitution
