import TraceSubstitution.Proofs.Gradient.Timely

/-!
# What a run leaves behind

A fragment is closed if what it reads is known, a placeholder, or an output of one
of its own earlier calls. While a timely run goes on, the program stays closed, and
the fragment of the open capture is closed over it (`Tracer.Captures`). Placeholders
and diverted outputs are symbols of their own: they differ from each other and from
everything that the program gives a value (`Tracer.Distinct`).

In a disciplined run the symbols whose gradients are asked for are results of the
run, and those that receive contributions are operands, which are older
(`Recipe.InOrder`). So a fragment never contributes to a gradient that it or a later
fragment asks for.
-/

namespace TraceSubstitution

variable {α : Type}

theorem append_subset_append {known known' : List SymbolId} (h : known ⊆ known')
    (more : List SymbolId) : known ++ more ⊆ known' ++ more :=
  List.append_subset.2 ⟨List.subset_append_of_subset_left more h,
    List.subset_append_right known' more⟩

namespace BackwardStep

/-- The symbols that a part of a fragment defines. -/
def outputs : BackwardStep α → List SymbolId
  | node n => n.outputs
  | accumulate _ _ => []

/-- The symbols to whose gradients a part of a fragment contributes. -/
def targets : BackwardStep α → List SymbolId
  | node _ => []
  | accumulate target _ => [target]

/-- The symbols that a part of a fragment reads. -/
def reads : BackwardStep α → List SymbolId
  | node n => n.inputs.reduceOption
  | accumulate _ contribution => [contribution]

/-- Every part reads only what is known already or an output of an earlier part. -/
def Closed : List SymbolId → List (BackwardStep α) → Prop
  | _, [] => True
  | known, s :: steps => s.reads ⊆ known ∧ Closed (known ++ s.outputs) steps

theorem closed_cons {known : List SymbolId} {s : BackwardStep α} {steps : List (BackwardStep α)} :
    Closed known (s :: steps) ↔ s.reads ⊆ known ∧ Closed (known ++ s.outputs) steps := Iff.rfl

theorem closed_append_singleton : ∀ (known : List SymbolId) (steps : List (BackwardStep α))
    (s : BackwardStep α), Closed known (steps ++ [s]) ↔
      Closed known steps ∧ s.reads ⊆ known ++ steps.flatMap outputs
  | known, [], s => by simp [Closed]
  | known, s' :: steps, s => by
    have ih := closed_append_singleton (known ++ s'.outputs) steps s
    rw [List.cons_append, closed_cons, closed_cons, ih, and_assoc, List.flatMap_cons,
      List.append_assoc]

theorem Closed.mono : ∀ {known known' : List SymbolId} {steps : List (BackwardStep α)},
    Closed known steps → known ⊆ known' → Closed known' steps
  | _, _, [], _, _ => trivial
  | _, _, s :: _, h, hsub =>
    ⟨List.Subset.trans h.1 hsub, h.2.mono (append_subset_append hsub s.outputs)⟩

end BackwardStep

namespace Fragment

/-- The placeholders. -/
def placeholderIds (f : Fragment α) : List SymbolId := f.placeholders.map Prod.fst

/-- The symbols whose gradients are asked for. -/
def primals (f : Fragment α) : List SymbolId := f.placeholders.map Prod.snd

/-- The outputs of the calls. -/
def diverted (f : Fragment α) : List SymbolId := f.steps.flatMap BackwardStep.outputs

/-- The symbols to whose gradients something is contributed. -/
def targets (f : Fragment α) : List SymbolId := f.steps.flatMap BackwardStep.targets

/-- The symbols that belong to the fragment. -/
def own (f : Fragment α) : List SymbolId := f.diverted ++ f.placeholderIds

/-- The fragment asks for gradients of known symbols, and reads known symbols and its own. -/
structure Closed (known : List SymbolId) (f : Fragment α) : Prop where
  primals : f.primals ⊆ known
  steps : BackwardStep.Closed (known ++ f.placeholderIds) f.steps

theorem Closed.mono {known known' : List SymbolId} {f : Fragment α} (h : f.Closed known)
    (hsub : known ⊆ known') : f.Closed known' :=
  ⟨List.Subset.trans h.primals hsub, h.steps.mono (append_subset_append hsub f.placeholderIds)⟩

/-- The first fragment contributes to no gradient that the second one asks for. -/
def Precedes (f g : Fragment α) : Prop := ∀ id ∈ f.targets, id ∉ g.primals

end Fragment

section Capture

variable (c : Capture α) (n : Node α) (placeholder primal target contribution : SymbolId)

@[simp] theorem diverted_divert :
    (c.divert n).toFragment.diverted = c.toFragment.diverted ++ n.outputs := by
  simp [Fragment.diverted, Capture.divert, BackwardStep.outputs]

@[simp] theorem targets_divert : (c.divert n).toFragment.targets = c.toFragment.targets := by
  simp [Fragment.targets, Capture.divert, BackwardStep.targets]

@[simp] theorem placeholderIds_divert :
    (c.divert n).toFragment.placeholderIds = c.toFragment.placeholderIds := rfl

@[simp] theorem diverted_accumulate :
    (c.accumulate target contribution).toFragment.diverted = c.toFragment.diverted := by
  simp [Fragment.diverted, Capture.accumulate, BackwardStep.outputs]

@[simp] theorem targets_accumulate : (c.accumulate target contribution).toFragment.targets =
    c.toFragment.targets ++ [target] := by
  simp [Fragment.targets, Capture.accumulate, BackwardStep.targets]

@[simp] theorem placeholderIds_accumulate :
    (c.accumulate target contribution).toFragment.placeholderIds =
      c.toFragment.placeholderIds := rfl

@[simp] theorem diverted_addPlaceholder :
    (c.addPlaceholder placeholder primal).toFragment.diverted = c.toFragment.diverted := rfl

@[simp] theorem placeholderIds_addPlaceholder :
    (c.addPlaceholder placeholder primal).toFragment.placeholderIds =
      c.toFragment.placeholderIds ++ [placeholder] := by
  simp [Fragment.placeholderIds, Capture.addPlaceholder]

@[simp] theorem primals_addPlaceholder :
    (c.addPlaceholder placeholder primal).toFragment.primals =
      c.toFragment.primals ++ [primal] := by
  simp [Fragment.primals, Capture.addPlaceholder]

end Capture

namespace Tracer

/-- The symbols that have a value and the given other ones are distinct symbols of the program. -/
structure Distinct (t : Tracer α) (others : List SymbolId) : Prop where
  nodup : (t.known ++ others).Nodup
  bound : ∀ id ∈ t.known ++ others, id.index < t.symbols.length

variable {t t' : Tracer α} {others others' : List SymbolId}

/-- Fresh symbols get a value or join the others, and others get a value. -/
theorem Distinct.extend (h : t.Distinct others) {types : List TensorType}
    (hsymbols : t'.symbols = t.symbols ++ types)
    (hperm : (t'.known ++ others').Perm (t.known ++ others ++ (t.fresh types).map Symbol.id)) :
    t'.Distinct others' where
  nodup := by
    refine hperm.nodup_iff.2 (List.nodup_append.2 ⟨h.nodup, nodup_map_id_fresh types, ?_⟩)
    intro id hid id' hid' heq
    obtain ⟨s, hs, rfl⟩ := List.mem_map.1 hid'
    have hlt := h.bound id hid
    have hle := (index_of_mem_fresh hs).1
    rw [heq] at hlt
    exact Nat.not_le_of_lt hlt hle
  bound := by
    intro id hid
    rw [hsymbols, List.length_append]
    rcases List.mem_append.1 (hperm.mem_iff.1 hid) with hid | hid
    · exact Nat.lt_add_right _ (h.bound id hid)
    · obtain ⟨s, hs, rfl⟩ := List.mem_map.1 hid
      exact (index_of_mem_fresh hs).2

theorem Distinct.perm (h : t.Distinct others) (hperm : others'.Perm others) :
    t.Distinct others' := by
  refine h.extend (List.append_nil t.symbols).symm ?_
  rw [fresh_nil, List.map_nil, List.append_nil]
  exact hperm.append_left t.known

theorem Distinct.notMem_known (h : t.Distinct others) {id : SymbolId} (hid : id ∈ others) :
    id ∉ t.known :=
  fun hknown => (List.nodup_append.1 h.nodup).2.2 id hknown id hid rfl

/-- Every symbol of a recorded program is an input or an output of a call once. -/
theorem Recorded.distinct (h : t.Recorded) : t.Distinct [] := by
  induction h with
  | empty => exact ⟨.nil, fun _ hid => absurd hid List.not_mem_nil⟩
  | @input t type _ ih =>
    refine ih.extend (rfl : _ = t.symbols ++ [type]) ?_
    simp only [known, List.append_nil]
    change (t.inputs ++ [t.nextId] ++ t.nodes.flatMap (·.outputs)).Perm
      (t.inputs ++ t.nodes.flatMap (·.outputs) ++ [t.nextId])
    rw [List.append_assoc, List.append_assoc]
    exact List.perm_append_comm.append_left t.inputs
  | @call t t' op operands attrs results hrec hcall ih =>
    obtain ⟨bound, types, -, -, -, -, rfl⟩ := call_eq_ok_iff.1 hcall
    rw [declare_append hrec.capture_eq_none]
    refine ih.extend (rfl : _ = t.symbols ++ types) (.of_eq ?_)
    simp only [known, List.append_nil, List.flatMap_append, List.flatMap_singleton,
      List.append_assoc]

/-- While a capture is open: the program and the fragment are closed, with other symbols set aside,
and what depends on a gradient are the symbols of the fragment. -/
structure Captures (others : List SymbolId) (t : Tracer α) (c : Capture α) : Prop where
  capture : t.capture = some c
  closed : Node.Closed t.inputs t.nodes
  distinct : t.Distinct (others ++ c.toFragment.own)
  fragment : c.toFragment.Closed t.known
  tainted : ∀ id, id ∈ c.tainted ↔ id ∈ c.toFragment.own

namespace Captures

variable {c : Capture α}

theorem mem_of_offers (h : Captures others t c) {s : Symbol} (hs : t.Offers s) :
    s.id ∈ t.known ++ c.toFragment.own := by
  rcases hs with hs | ⟨c', hc', hs⟩
  · exact List.mem_append_left _ hs
  · obtain rfl : c' = c := Option.some.inj (hc'.symm.trans h.capture)
    exact List.mem_append_right _ ((h.tainted s.id).1 hs)

theorem divert (h : Captures others t c) {n : Node α} {types : List TensorType}
    (hinputs : n.inputs.reduceOption ⊆ t.known ++ c.toFragment.own)
    (houtputs : n.outputs = (t.fresh types).map Symbol.id) :
    Captures others { t.declare types with capture := some (c.divert n) } (c.divert n) where
  capture := rfl
  closed := h.closed
  distinct := by
    refine h.distinct.extend rfl ?_
    simp only [Fragment.own, diverted_divert, placeholderIds_divert, houtputs, List.append_assoc]
    exact ((List.perm_append_comm.append_left _).append_left _).append_left _
  fragment := by
    refine ⟨h.fragment.primals, (BackwardStep.closed_append_singleton _ _ _).2
      ⟨h.fragment.steps, fun id hid => ?_⟩⟩
    have hmem := hinputs hid
    simp only [Fragment.own, Fragment.diverted, List.mem_append] at hmem ⊢
    tauto
  tainted := by
    intro id
    have hid := h.tainted id
    simp only [Fragment.own, diverted_divert, placeholderIds_divert, List.mem_append] at hid ⊢
    rw [Capture.divert, List.mem_append, hid]
    tauto

theorem record (h : Captures others t c) {n : Node α} {types : List TensorType}
    (hinputs : n.inputs.reduceOption ⊆ t.known)
    (houtputs : n.outputs = (t.fresh types).map Symbol.id) :
    Captures others { t.declare types with nodes := t.nodes ++ [n] } c := by
  have hknown : known { t.declare types with nodes := t.nodes ++ [n] } = t.known ++ n.outputs := by
    simp [known, declare]
  refine ⟨h.capture, ?_, ?_, h.fragment.mono (hknown ▸ List.subset_append_left _ _), h.tainted⟩
  · refine (Node.closed_append _ _ _).2 ⟨h.closed, Node.closed_singleton.2 fun id hid => ?_⟩
    exact hinputs (List.reduceOption_mem_iff.2 hid)
  · refine h.distinct.extend rfl ?_
    rw [hknown, houtputs, List.append_assoc, List.append_assoc]
    exact List.perm_append_comm.append_left _

theorem call (h : Captures others t c) {op : NodeOp α} {operands : List (Option Symbol)}
    {attrs : Attrs} {results : List Symbol} (hoperands : ∀ s, some s ∈ operands → t.Offers s)
    (hcall : (Tracer.call op operands attrs).apply t = (.ok results, t')) :
    ∃ c', Captures others t' c' := by
  obtain ⟨n, types, hinputs, rfl, houtputs, rfl⟩ := call_of_capture h.capture hcall
  have hreads : ∀ id ∈ n.inputs.reduceOption, ∃ s, some s ∈ operands ∧ s.id = id := by
    intro id hid
    rw [List.reduceOption_mem_iff, hinputs] at hid
    obtain ⟨x, hx, hsome⟩ := List.mem_map.1 hid
    obtain ⟨s, rfl, hs⟩ := Option.map_eq_some_iff.1 hsome
    exact ⟨s, hx, hs⟩
  cases hdiverts : t.diverts operands with
  | true =>
    refine ⟨c.divert n, h.divert ?_ houtputs⟩
    intro id hid
    obtain ⟨s, hs, rfl⟩ := hreads id hid
    exact h.mem_of_offers (hoperands s hs)
  | false =>
    refine ⟨c, h.record ?_ houtputs⟩
    intro id hid
    obtain ⟨s, hs, rfl⟩ := hreads id hid
    -- An operand that depends on a gradient would have diverted the call.
    rcases hoperands s hs with hknown | ⟨c', hc', htainted⟩
    · exact hknown
    · have htrue : t.diverts operands = true := by
        simp only [diverts, hc', Option.any_some, List.any_eq_true, Option.any_eq_true,
          List.contains_iff_mem]
        exact ⟨some s, hs, s, rfl, htainted⟩
      exact (Bool.false_ne_true (hdiverts.symm.trans htrue)).elim

theorem addPlaceholder (h : Captures others t c) {primal : Symbol} (hprimal : primal.id ∈ t.known) :
    Captures others
      { t.declare [primal.type] with capture := some (c.addPlaceholder t.nextId primal.id) }
      (c.addPlaceholder t.nextId primal.id) where
  capture := rfl
  closed := h.closed
  distinct := by
    have hsymbols : (t.declare [primal.type]).symbols = t.symbols ++ [primal.type] := rfl
    refine h.distinct.extend hsymbols ?_
    simp only [Fragment.own, diverted_addPlaceholder, placeholderIds_addPlaceholder,
      List.append_assoc]
    exact .refl _
  fragment := by
    refine ⟨?_, h.fragment.steps.mono ?_⟩
    · rw [primals_addPlaceholder]
      refine List.append_subset.2 ⟨h.fragment.primals, fun id hid => ?_⟩
      exact List.mem_singleton.1 hid ▸ hprimal
    · rw [placeholderIds_addPlaceholder, ← List.append_assoc]
      exact List.subset_append_left _ _
  tainted := by
    intro id
    have hid := h.tainted id
    simp only [Fragment.own, diverted_addPlaceholder, placeholderIds_addPlaceholder,
      List.mem_append, List.mem_singleton] at hid ⊢
    rw [Capture.addPlaceholder, List.mem_cons, hid]
    tauto

theorem incoming (h : Captures others t c) {primal gradient : Symbol}
    (hprimal : primal.id ∈ t.known)
    (hincoming : (incomingGradient primal).apply t = (.ok gradient, t')) :
    ∃ c', Captures others t' c' := by
  obtain ⟨-, c', hc', hcase⟩ := incomingGradient_eq_ok_iff.1 hincoming
  obtain rfl : c' = c := Option.some.inj (hc'.symm.trans h.capture)
  rcases hcase with ⟨_, -, -, rfl⟩ | ⟨-, -, rfl⟩
  · exact ⟨c', h⟩
  · exact ⟨_, h.addPlaceholder hprimal⟩

theorem accumulate (h : Captures others t c) {target contribution : Symbol}
    (hcontribution : t.Offers contribution)
    (haccumulate : (accumulateGradient target contribution).apply t = (.ok (), t')) :
    ∃ c', Captures others t' c' := by
  obtain ⟨-, -, -, c', hc', rfl⟩ := accumulateGradient_eq_ok_iff.1 haccumulate
  obtain rfl : c' = c := Option.some.inj (hc'.symm.trans h.capture)
  have hown : (c'.accumulate target.id contribution.id).toFragment.own = c'.toFragment.own := by
    rw [Fragment.own, diverted_accumulate, placeholderIds_accumulate, Fragment.own]
  refine ⟨c'.accumulate target.id contribution.id, rfl, h.closed, ?_, ⟨h.fragment.primals, ?_⟩, ?_⟩
  · rw [hown]
    exact ⟨h.distinct.nodup, h.distinct.bound⟩
  · refine (BackwardStep.closed_append_singleton _ _ _).2 ⟨h.fragment.steps, fun id hid => ?_⟩
    rw [List.mem_singleton.1 hid]
    have hmem := h.mem_of_offers hcontribution
    simp only [Fragment.own, Fragment.diverted, List.mem_append] at hmem ⊢
    tauto
  · rw [hown]
    exact h.tainted

/-- A timely run: what it returns is known. -/
theorem run {r : Recipe α (List Symbol)} (hr : r.Timely t) (h : Captures others t c)
    {outputs : List Symbol} (hrun : r.run.apply t = (.ok outputs, t')) :
    ∃ c', Captures others t' c' ∧ ∀ s ∈ outputs, s.id ∈ t'.known := by
  induction r generalizing t c with
  | done result =>
    obtain ⟨hresult, rfl⟩ := Prod.mk.inj hrun
    exact ⟨c, h, hr outputs hresult⟩
  | read next ih => exact ih t hr h hrun
  | call op operands attrs next ih =>
    obtain ⟨hok, herror⟩ := hr
    rcases Recipe.run_call_eq_ok_iff.1 hrun with ⟨results, t₁, hcall, hnext⟩ | ⟨e, hcall, hnext⟩
    · obtain ⟨hoperands, hrest⟩ := hok results t₁ hcall
      obtain ⟨c₁, h₁⟩ := h.call hoperands hcall
      exact ih _ hrest h₁ hnext
    · exact ih _ (herror e hcall) h hnext
  | incoming primal next ih =>
    obtain ⟨hok, herror⟩ := hr
    rcases Recipe.run_incoming_eq_ok_iff.1 hrun with
      ⟨s, t₁, hincoming, hnext⟩ | ⟨e, hincoming, hnext⟩
    · obtain ⟨hprimal, hrest⟩ := hok s t₁ hincoming
      obtain ⟨c₁, h₁⟩ := h.incoming hprimal hincoming
      exact ih _ hrest h₁ hnext
    · exact ih _ (herror e hincoming) h hnext
  | accumulate target contribution next ih =>
    obtain ⟨hok, herror⟩ := hr
    rcases Recipe.run_accumulate_eq_ok_iff.1 hrun with
      ⟨t₁, haccumulate, hnext⟩ | ⟨e, haccumulate, hnext⟩
    · obtain ⟨hcontribution, hrest⟩ := hok t₁ haccumulate
      obtain ⟨c₁, h₁⟩ := h.accumulate hcontribution haccumulate
      exact ih _ hrest h₁ hnext
    · exact ih _ (herror e haccumulate) h hnext

end Captures

end Tracer

theorem Trace.Recorded.nodup {t : Trace α} (h : t.Recorded) :
    (t.inputs ++ t.nodes.flatMap (·.outputs)).Nodup := by
  obtain ⟨tracer, outputs, htracer, hfinish⟩ := h
  obtain ⟨-, -, rfl⟩ := Tracer.finish_eq_ok_iff.1 hfinish
  exact (List.nodup_append.1 htracer.distinct.nodup).1

namespace Recipe

/-- A run for a call whose operands are older than the symbol number `first`: it asks for gradients
of its results, and contributes to gradients of the operands. -/
structure InOrder (first : Nat) (k : Scope) (t : Tracer α) (c : Capture α) : Prop where
  capture : t.capture = some c
  later : first ≤ t.symbols.length
  primals : ∀ id ∈ c.toFragment.primals, first ≤ id.index
  targets : ∀ id ∈ c.toFragment.targets, id.index < first
  operands : ∀ s ∈ k.operands, s.id.index < first
  recorded : ∀ s ∈ k.recorded, first ≤ s.id.index

namespace InOrder

variable {first : Nat} {k : Scope} {t t' : Tracer α} {c : Capture α}

theorem call (h : InOrder first k t c) {op : NodeOp α} {operands : List (Option Symbol)}
    {attrs : Attrs} {results : List Symbol}
    (hcall : (Tracer.call op operands attrs).apply t = (.ok results, t')) :
    ∃ c', InOrder first (k.afterCall (t.diverts operands) results) t' c' := by
  have hlater := Nat.le_trans h.later (Tracer.extends_of_call hcall).symbols.length_le
  obtain ⟨n, types, -, rfl, -, rfl⟩ := Tracer.call_of_capture h.capture hcall
  cases hdiverts : t.diverts operands with
  | true =>
    refine ⟨c.divert n, rfl, ?_, h.primals, ?_, h.operands, h.recorded⟩
    · rwa [hdiverts] at hlater
    · rw [targets_divert]
      exact h.targets
  | false =>
    refine ⟨c, h.capture, ?_, h.primals, h.targets, h.operands, fun s hs => ?_⟩
    · rwa [hdiverts] at hlater
    · rcases List.mem_append.1 hs with hs | hs
      · exact h.recorded s hs
      · exact Nat.le_trans h.later (Tracer.index_of_mem_fresh hs).1

theorem incoming (h : InOrder first k t c) {primal gradient : Symbol}
    (hprimal : primal ∈ k.recorded)
    (hincoming : (Tracer.incomingGradient primal).apply t = (.ok gradient, t')) :
    ∃ c', InOrder first (k.afterIncoming gradient) t' c' := by
  have hlater := Nat.le_trans h.later
    (Tracer.extends_of_incomingGradient hincoming).symbols.length_le
  obtain ⟨-, c', hc', hcase⟩ := Tracer.incomingGradient_eq_ok_iff.1 hincoming
  obtain rfl : c' = c := Option.some.inj (hc'.symm.trans h.capture)
  rcases hcase with ⟨_, -, -, rfl⟩ | ⟨-, -, rfl⟩
  · exact ⟨c', h.capture, h.later, h.primals, h.targets, h.operands, h.recorded⟩
  · refine ⟨_, rfl, hlater, fun id hid => ?_, h.targets, h.operands, h.recorded⟩
    rw [primals_addPlaceholder] at hid
    rcases List.mem_append.1 hid with hid | hid
    · exact h.primals id hid
    · exact List.mem_singleton.1 hid ▸ h.recorded primal hprimal

theorem accumulate (h : InOrder first k t c) {target contribution : Symbol}
    (htarget : target ∈ k.operands)
    (haccumulate : (Tracer.accumulateGradient target contribution).apply t = (.ok (), t')) :
    ∃ c', InOrder first k t' c' := by
  obtain ⟨-, -, -, c', hc', rfl⟩ := Tracer.accumulateGradient_eq_ok_iff.1 haccumulate
  obtain rfl : c' = c := Option.some.inj (hc'.symm.trans h.capture)
  refine ⟨_, rfl, h.later, h.primals, fun id hid => ?_, h.operands, h.recorded⟩
  rw [targets_accumulate] at hid
  rcases List.mem_append.1 hid with hid | hid
  · exact h.targets id hid
  · exact List.mem_singleton.1 hid ▸ h.operands target htarget

/-- A disciplined run keeps to the order. -/
theorem run {r : Recipe α (List Symbol)} (hr : r.Disciplined k t) (h : InOrder first k t c)
    {outputs : List Symbol} (hrun : r.run.apply t = (.ok outputs, t')) :
    ∃ k' c', InOrder first k' t' c' := by
  induction r generalizing k t c with
  | done result =>
    obtain rfl : t = t' := (Prod.mk.inj hrun).2
    exact ⟨k, c, h⟩
  | read next ih => exact ih t hr h hrun
  | call op operands attrs next ih =>
    obtain ⟨-, hok, herror⟩ := hr
    rcases run_call_eq_ok_iff.1 hrun with ⟨results, t₁, hcall, hnext⟩ | ⟨e, hcall, hnext⟩
    · obtain ⟨c₁, h₁⟩ := h.call hcall
      exact ih _ (hok results t₁ hcall) h₁ hnext
    · exact ih _ (herror e hcall) h hnext
  | incoming primal next ih =>
    obtain ⟨hprimal, hok, herror⟩ := hr
    rcases run_incoming_eq_ok_iff.1 hrun with ⟨s, t₁, hincoming, hnext⟩ | ⟨e, hincoming, hnext⟩
    · obtain ⟨c₁, h₁⟩ := h.incoming hprimal hincoming
      exact ih _ (hok s t₁ hincoming) h₁ hnext
    · exact ih _ (herror e hincoming) h hnext
  | accumulate target contribution next ih =>
    obtain ⟨htarget, -, hok, herror⟩ := hr
    rcases run_accumulate_eq_ok_iff.1 hrun with ⟨t₁, haccumulate, hnext⟩ | ⟨e, haccumulate, hnext⟩
    · obtain ⟨c₁, h₁⟩ := h.accumulate htarget haccumulate
      exact ih _ (hok t₁ haccumulate) h₁ hnext
    · exact ih _ (herror e haccumulate) h hnext

end InOrder

end Recipe

end TraceSubstitution
