import TraceSubstitution.Proofs.Gradient.Typing
import TraceSubstitution.Proofs.Replacement.Tracking
import TraceSubstitution.Proofs.Trace.Renumbering

/-!
# One call for every call

A `Placement` is the call that takes the place of a call of the source, before it is
known which symbols it is made on. If the types of the operands settle it, in forward
and in joint programs alike (`Replacer.Settles`), then the two programs are built in
step: at every moment the joint program has the calls of the forward program under
other numbers (`Progress.Mirrors`). So a joint program begins as the forward program
does, and its cotangents, placeholders and gradients come in between in the numbering
only (`Replacer.exists_grows`).
-/

namespace TraceSubstitution

variable {α : Type}

/-- A call that reads the first operands of a call of the source. The first of its outputs stands
for that of the source. -/
structure Placement (α : Type) where
  /-- What is called. -/
  op : NodeOp α
  /-- How many operands it reads. -/
  arity : Nat
  /-- The static arguments. -/
  attrs : Attrs
  /-- The type of its first output. -/
  output : TensorType
  /-- The types of the other outputs. -/
  others : List TensorType

namespace Placement

/-- The call on given operands; its outputs are the next symbols of the program. -/
def node (c : Placement α) (t : Tracer α) (operands : List (Option Symbol)) : Node α :=
  t.nextNode c.op (operands.take c.arity) c.attrs (c.output :: c.others)

/-- The call has been made, and no input has been declared. -/
structure Fills (c : Placement α) (operands : List (Option Symbol)) (t t' : Tracer α) : Prop where
  advances : t.Advances (c.node t operands) c.output t'
  inputs : t'.inputs = t.inputs

variable {c : Placement α} {t : Tracer α} {operands : List (Option Symbol)}

/-- What the call reads belongs to the program. -/
theorem owns_of_reads (howned : ∀ s, some s ∈ operands → t.owns s = true) {id : SymbolId}
    (hid : some id ∈ (c.node t operands).inputs) : ∃ s, t.owns s = true ∧ s.id = id ∧
      some s ∈ operands := by
  obtain ⟨x, hx, heq⟩ := List.mem_map.1 hid
  obtain ⟨s, rfl, rfl⟩ := Option.map_eq_some_iff.1 heq
  have hmem := List.mem_of_mem_take hx
  exact ⟨s, howned s hmem, rfl, hmem⟩

/-- The call of the source itself. -/
def again (n : Node α) (types : List (Option TensorType)) (output : TensorType) : Placement α :=
  ⟨n.op, types.length, n.attrs, output, []⟩

variable {n : Node α} {types : List (Option TensorType)} {output : TensorType}

/-- All operands are read again. -/
theorem node_again (htypes : operands.map (·.map Symbol.type) = types) :
    (again n types output).node t operands = t.nextNode n.op operands n.attrs [output] := by
  unfold node again
  rw [← htypes, List.length_map, List.take_length]

/-- A call of the source can be made again. -/
theorem fills_again {source : List TensorType} (hn : n.Typed source types [output])
    (hproper : n.op.operator.signature.Proper) (ht : t.capture = none)
    (htypes : operands.map (·.map Symbol.type) = types)
    (howned : ∀ s, some s ∈ operands → t.owns s = true) : ∃ t',
      (Tracer.call n.op operands n.attrs).apply t = (.ok [⟨t.id, t.nextId, output⟩], t') ∧
      (again n types output).Fills operands t t' := by
  have hnode : (again n types output).node t operands = _ := node_again htypes
  have hcall := hn.apply_call hproper htypes howned
  rw [Tracer.declare_append_eq_extend ht, ← hnode] at hcall
  exact ⟨_, hcall, ⟨rfl, rfl, ht, [], [], rfl, (List.append_nil _).symm⟩, rfl⟩

end Placement

/-- In both modes the rule for a call is settled by the types of its operands, and so is the call
that takes its place; whatever is left behind for the backward part calls allowed operators only. -/
structure Replacer.Settles (r : Replacer α) (allowed : Set (Operator α)) (n : Node α)
    (types : List (Option TensorType)) (o : Operator α) (rule : Option (Rule α))
    (c : Placement α) : Prop where
  op : n.op = .highLevel o
  called : c.op.operator ∈ allowed
  chosen : ∀ gradient (operands : List (Option Symbol)), operands.map (·.map Symbol.type) = types →
    r.chosenRule o ⟨o.qualifiedName, operands, n.attrs⟩ gradient = .ok rule
  replaced : ∀ gradient (p : Progress α) (operands : List (Option Symbol)),
    operands.map (·.map Symbol.type) = types → p.tracer.capture = none →
    (∀ s, some s ∈ operands → p.tracer.owns s = true) → ∃ f t,
      r.replacement gradient p o n operands rule =
        .ok ([⟨p.tracer.id, p.tracer.nextId, c.output⟩], f, { p with tracer := t }) ∧
      c.Fills operands p.tracer t ∧ ∀ m, .node m ∈ f.steps → m.op.operator ∈ allowed

/-- All calls of a source are settled by the types that are declared for their operands. -/
def Replacer.SettlesAll (r : Replacer α) (ops allowed : Set (Operator α))
    (source : List TensorType) (nodes : List (Node α)) : Prop :=
  ∀ n ∈ nodes, ∃ types o rule c, o ∈ ops ∧ n.Typed source types [c.output] ∧
    r.Settles allowed n types o rule c

/-- The next symbol of the program stands for the output of the call, which is reported. -/
def Progress.place (p : Progress α) (n : Node α) (output : TensorType) (record : DispatchRecord)
    (t : Tracer α) : Progress α :=
  ⟨t, p.symbols.insertAll n.outputs [⟨p.tracer.id, p.tracer.nextId, output⟩], p.report ++ [record]⟩

namespace Replacer

variable {r : Replacer α} {ops allowed : Set (Operator α)} {source : List TensorType}
  {types : List (Option TensorType)} {n : Node α} {o : Operator α} {rule : Option (Rule α)}
  {c : Placement α} {p : Progress α} {known hidden : List SymbolId}
  {s : Journaled (Decisions α)}

/-- A call that is never replaced is made again in both modes, if its gradient transform makes it
again as well. -/
theorem settles_again (hop : n.op = .highLevel o) (hproper : o.signature.Proper) (ho : o ∈ allowed)
    {output : TensorType} (hn : n.Typed source types [output])
    (hchosen : ∀ gradient (operands : List (Option Symbol)),
      operands.map (·.map Symbol.type) = types →
        r.chosenRule o ⟨o.qualifiedName, operands, n.attrs⟩ gradient = .ok none)
    {T : Transform α} {executor : String} (hT : r.gradientTransform o none = .ok (T, executor))
    (hrun : ∀ (t : Tracer α) (operands : List (Option Symbol)),
      operands.map (·.map Symbol.type) = types → (∀ s, some s ∈ operands → t.owns s = true) → ∃ t',
        (T ⟨o.qualifiedName, operands, n.attrs⟩).run.apply t.beginBackward =
          (.ok [⟨t.id, t.nextId, output⟩], t') ∧
        (Placement.again n types output).Fills operands t t'.endBackward.2 ∧
        ∀ m, .node m ∈ t'.endBackward.1.steps → m.op.operator ∈ allowed) :
    r.Settles allowed n types o none (.again n types output) where
  op := hop
  called := by
    change n.op.operator ∈ allowed
    rwa [hop]
  chosen := hchosen
  replaced gradient p operands htypes hcapture howned := by
    cases gradient with
    | false =>
      have hproper : n.op.operator.signature.Proper := by rwa [hop]
      obtain ⟨t, hcall, hfills⟩ := Placement.fills_again hn hproper hcapture htypes howned
      rw [hop] at hcall
      exact ⟨⟨[], []⟩, t, replacement_false_of_ok
        (forwardOutputs_none_eq_ok_iff.2 ⟨t, hcall, rfl⟩), hfills, nofun⟩
    | true =>
      have hinfer := hn.inferred
      rw [hop, ← htypes] at hinfer
      obtain ⟨t, hrun, hfills, hallowed⟩ := hrun p.tracer operands htypes howned
      exact ⟨_, _, replacement_true_of_run hT hrun hinfer, hfills, hallowed⟩

/-- A settled call succeeds in either mode, and one call takes its place. -/
theorem Settles.exists_step (h : r.Settles allowed n types o rule c) (hr : r.TypeDirected)
    (hids : Set.InjOn Operator.id ops) (hs : s.state.Right r ops) (ho : o ∈ ops)
    (hp : p.Tracks source known hidden) (hn : n.Typed source types [c.output])
    (hreads : ∀ id, some id ∈ n.inputs → id ∈ known) (gradient : Bool) (index : Nat) :
    ∃ operands record t f s' hidden', p.operandsFor n = .ok operands ∧
      (∀ s, some s ∈ operands → p.tracer.owns s = true) ∧ c.Fills operands p.tracer t ∧
      (∀ m, .node m ∈ f.steps → m.op.operator ∈ allowed) ∧
      { record with cached := false } = ⟨index, o.qualifiedName, outcomeOf rule, false⟩ ∧
      (r.step gradient p index n).apply s = (.ok (p.place n c.output record t, f), s') ∧
      s'.state.Right r ops ∧
      (p.place n c.output record t).Tracks source (known ++ n.outputs) hidden' := by
  obtain ⟨operands, hoperands, htypes, hall⟩ := hp.exists_operands hn.inputTypes hreads
  have howned := fun s hs => (hall s hs).1
  obtain ⟨id, rest, houtputs, hid, hnil⟩ := List.map_eq_cons_iff.1 hn.outputTypes
  obtain rfl : rest = [] := List.map_eq_nil_iff.1 hnil
  obtain ⟨f, t, hreplaced, hfills, hallowed⟩ :=
    h.replaced gradient p operands htypes hp.capture howned
  have hlength : [(⟨p.tracer.id, p.tracer.nextId, c.output⟩ : Symbol)].length =
      n.outputs.length := by
    rw [houtputs]
    rfl
  let record : DispatchRecord := ⟨index, o.qualifiedName, outcomeOf rule,
    (s.state.find? (.ofCall o.id gradient ⟨o.qualifiedName, operands, n.attrs⟩)).isSome⟩
  have hdecided : r.decidedStep gradient p o n operands record rule =
      .ok (p.place n c.output record t, f) :=
    decidedStep_eq_ok_iff.2 ⟨_, _, hreplaced, hlength, rfl⟩
  obtain ⟨journal, hstep⟩ := apply_step_of_right hs ho h.op hoperands gradient index
  rw [h.chosen gradient operands htypes] at hstep
  have hstep := hstep.trans (congrArg (·, _) hdecided)
  have hmem : n.op.operator ∈ ops := by rwa [h.op]
  have hright := right_step hr hids hs hmem gradient p index
  rw [hstep] at hright
  refine ⟨operands, record, t, f, _, hidden ++ (c.node p.tracer operands).outputs.tail, hoperands,
    howned, hfills, hallowed, rfl, hstep, hright, ?_⟩
  unfold Progress.place
  rw [houtputs]
  refine hp.advance hfills.advances hid (fun x hx => ?_) _
  obtain ⟨s, -, rfl, hmem⟩ := Placement.owns_of_reads howned hx
  exact Progress.Tracks.shows_of_owns (hall s hmem).1 (hall s hmem).2

end Replacer

/-- The second program under way has the inputs and calls of the first one under the numbers that
`σ` gives to their symbols, what stands for a symbol of the source is the same in both, and the
same has been reported. -/
structure Progress.Mirrors (σ : SymbolId → SymbolId) (source : List TensorType)
    (known : List SymbolId) (p p' : Progress α) : Prop where
  first : ∃ hidden, p.Tracks source known hidden
  second : ∃ hidden, p'.Tracks source known hidden
  recorded : p.tracer.Recorded
  tracer : p'.tracer.Renumbers σ p.tracer.inputs p.tracer.nodes
  symbols : SymbolMap.Related (fun s s' => s.id ∈ p.tracer.known ∧ s'.id = σ s.id) p.symbols
    p'.symbols
  report : p'.report.plain = p.report.plain

namespace Progress

variable {σ : SymbolId → SymbolId} {source : List TensorType} {known : List SymbolId}
  {p p' : Progress α} {n : Node α}

/-- Inputs are numbered in the same way in all programs. -/
theorem mirrors_start {id id' : TraceId} {source : Trace α} (hsource : source.Recorded)
    (h : start id source = .ok p) (h' : start id' source = .ok p') :
    p.Mirrors (fun x => x) source.symbols source.inputs p' := by
  obtain ⟨q, hq, -, -, htracks⟩ := exists_start id hsource
  obtain rfl := Except.ok.inj (h.symm.trans hq)
  obtain ⟨q', hq', -, -, htracks'⟩ := exists_start id' hsource
  obtain rfl := Except.ok.inj (h'.symm.trans hq')
  obtain ⟨types, htypes, rfl⟩ := start_eq_ok_iff.1 h
  obtain ⟨types', htypes', rfl⟩ := start_eq_ok_iff.1 h'
  obtain rfl : types' = types :=
    List.map_injective_iff.2 (Option.some_injective _) (htypes'.symm.trans htypes)
  have hids : ((Tracer.empty id' : Tracer α).fresh types').map Symbol.id =
      ((Tracer.empty id : Tracer α).fresh types').map Symbol.id := by
    rw [Tracer.map_id_fresh, Tracer.map_id_fresh]
    rfl
  refine ⟨⟨_, htracks⟩, ⟨_, htracks'⟩, (Tracer.Recorded.empty id).addInputs types', ⟨?_, rfl⟩,
    SymbolMap.related_empty.insertAll ?_ source.inputs, rfl⟩
  · rw [List.map_id']
    exact hids
  · have hsame := hids.symm
    rw [← List.forall₂_eq_eq_eq, List.forall₂_map_left_iff, List.forall₂_map_right_iff] at hsame
    refine (List.forall₂_and_left _ _).2 ⟨fun s hs => ?_, hsame.imp fun _ _ heq => heq.symm⟩
    exact List.mem_append_left _ (List.mem_map_of_mem hs)

/-- What is read in both programs is the same up to numbers. -/
theorem Mirrors.operandIds (h : p.Mirrors σ source known p')
    {operands operands' : List (Option Symbol)}
    (hoperands : p.operandsFor n = .ok operands) (hoperands' : p'.operandsFor n = .ok operands')
    (k : Nat) : (operands'.take k).map (·.map Symbol.id) =
      ((operands.take k).map (·.map Symbol.id)).map (·.map σ) := by
  have hreads := h.symbols.reads (operandsFor_eq_ok_iff.1 hoperands)
    (operandsFor_eq_ok_iff.1 hoperands')
  have hids : operands'.map (·.map Symbol.id) = (operands.map (·.map Symbol.id)).map (·.map σ) := by
    rw [List.map_map, ← List.forall₂_eq_eq_eq, List.forall₂_map_left_iff,
      List.forall₂_map_right_iff]
    refine List.Forall₂.flip (hreads.imp ?_)
    rintro x y (⟨-, heq⟩ | _)
    · exact congrArg some heq
    · rfl
  rw [List.map_take, List.map_take, List.map_take, hids]

theorem Mirrors.symbolIds (h : p.Mirrors σ source known p') {ids : List SymbolId}
    {symbols symbols' : List Symbol} (hsymbols : ids.mapM p.symbolFor = .ok symbols)
    (hsymbols' : ids.mapM p'.symbolFor = .ok symbols') :
    symbols'.map Symbol.id = (symbols.map Symbol.id).map σ := by
  have hvalues := h.symbols.values (symbolsFor_eq_ok_iff.1 hsymbols)
    (symbolsFor_eq_ok_iff.1 hsymbols')
  rw [List.map_map, ← List.forall₂_eq_eq_eq, List.forall₂_map_left_iff, List.forall₂_map_right_iff]
  exact List.Forall₂.flip (hvalues.imp fun _ _ heq => heq.2)

/-- The same call in both programs: its outputs get the numbers that they have in the second one. -/
theorem Mirrors.place (h : p.Mirrors σ source known p') {c : Placement α}
    {operands operands' : List (Option Symbol)} (hoperands : p.operandsFor n = .ok operands)
    (hoperands' : p'.operandsFor n = .ok operands')
    (howned : ∀ s, some s ∈ operands → p.tracer.owns s = true) {t t' : Tracer α}
    (hfills : c.Fills operands p.tracer t) (hfills' : c.Fills operands' p'.tracer t')
    {record record' : DispatchRecord}
    (hrecord : { record' with cached := false } = { record with cached := false })
    (hrecorded : t.Recorded) {hidden hidden' : List SymbolId}
    (hfirst : (p.place n c.output record t).Tracks source (known ++ n.outputs) hidden)
    (hsecond : (p'.place n c.output record' t').Tracks source (known ++ n.outputs) hidden') :
    ∃ τ, (p.place n c.output record t).Mirrors τ source (known ++ n.outputs)
      (p'.place n c.output record' t') := by
  let m := c.node p.tracer operands
  let m' := c.node p'.tracer operands'
  have hreads : ∀ id, some id ∈ m.inputs → id ∈ p.tracer.known := by
    intro id hid
    obtain ⟨s, hs, rfl, -⟩ := Placement.owns_of_reads howned hid
    exact h.recorded.mem_known s.id (Tracer.index_lt_of_owns hs)
  have hfresh : ∀ id ∈ m.outputs, id ∉ p.tracer.known := by
    intro id hid hknown
    have hlt := h.recorded.distinct.bound id (List.mem_append_left [] hknown)
    exact Nat.not_lt.2 (hfills.advances.index_of_mem hid).1 hlt
  have hlength : m.outputs.length = m'.outputs.length := by
    simp [m, m', Placement.node, Tracer.nextNode]
  have hop : m'.op = m.op := rfl
  have hattrs : m'.attrs = m.attrs := rfl
  obtain ⟨τ, htracer, houtputs, hsame⟩ := h.tracer.call h.recorded.closed hreads hfresh
    hfills.advances.nodup hop hattrs (h.operandIds hoperands hoperands' c.arity) hlength
    hfills'.inputs hfills'.advances.nodes
  have hknown : t.known = p.tracer.known ++ m.outputs := by
    unfold Tracer.known
    rw [hfills.inputs, hfills.advances.nodes, List.flatMap_append, List.flatMap_singleton,
      List.append_assoc]
  refine ⟨τ, ⟨_, hfirst⟩, ⟨_, hsecond⟩, hrecorded, ?_, ?_, ?_⟩
  · change t'.Renumbers τ t.inputs t.nodes
    rwa [hfills.inputs, hfills.advances.nodes]
  · refine SymbolMap.Related.insertAll ?_ (.cons ⟨?_, ?_⟩ .nil) n.outputs
    · refine h.symbols.mono fun s s' hs => ⟨?_, hs.2.trans (hsame s.id hs.1).symm⟩
      change s.id ∈ t.known
      rw [hknown]
      exact List.mem_append_left _ hs.1
    · change p.tracer.nextId ∈ t.known
      rw [hknown, hfills.advances.outputs_eq]
      exact List.mem_append_right _ List.mem_cons_self
    · change p'.tracer.nextId = τ p.tracer.nextId
      rw [hfills.advances.outputs_eq, hfills'.advances.outputs_eq] at houtputs
      exact (List.cons_eq_cons.1 houtputs).1.symm
  · unfold Progress.place Report.plain
    rw [List.map_append, List.map_append, List.map_singleton, List.map_singleton, hrecord]
    exact congrArg (· ++ _) h.report

end Progress

/-- Replaying a call leaves its operator alone. -/
theorem Fragment.exists_of_mem_calls {f : Fragment α} {m : SymbolMap SymbolId} {n : Node α}
    (h : n ∈ f.calls m) : ∃ k, .node k ∈ f.steps ∧ n.op = k.op := by
  obtain ⟨step, hstep, hn⟩ := List.mem_flatMap.1 h
  cases step with
  | node k =>
    rw [List.mem_singleton.1 hn]
    exact ⟨k, hstep, rfl⟩
  | accumulate target contribution => exact absurd hn List.not_mem_nil

/-- The calls that have been made, in the program and for the backward part, call allowed operators
only. -/
def Replacer.CallsOnly (allowed : Set (Operator α)) (p : Progress α)
    (fragments : List (Fragment α)) : Prop :=
  (∀ n ∈ p.tracer.nodes, n.op.operator ∈ allowed) ∧
    ∀ f ∈ fragments, ∀ n, .node n ∈ f.steps → n.op.operator ∈ allowed

/-- The joint program of a source begins as its forward program does, and the same is reported. The
gradients come from allowed calls, sums and zeros. -/
structure Replaced.GrowsFrom [Scalar α] (y : Replaced α) (allowed : Set (Operator α))
    (source : Trace α) (x : Replaced α) : Prop where
  report : y.report.plain = x.report.plain
  continues : ∃ σ cotangents backward gradients,
    y.trace.Continues x.trace σ cotangents backward gradients
  closed : y.trace.Closed
  interface : y.trace.HasInterface (source.inputTypes ++ source.outputTypes)
    (source.outputTypes ++ source.inputTypes)
  typed : ∀ n ∈ y.trace.nodes, n.IsTyped y.trace.symbols
  calls : ∀ n ∈ y.trace.nodes, n.op.operator ∈ allowed ∨ n.Gathers

namespace Replacer

variable {r : Replacer α} {ops allowed : Set (Operator α)} {σ : SymbolId → SymbolId}
  {source : List TensorType} {known : List SymbolId} {p p' : Progress α} {n : Node α}
  {nodes : List (Node α)} {s s' : Journaled (Decisions α)}

/-- A settled call takes both programs one step further. -/
theorem exists_step_of_mirrors (hr : r.TypeDirected) (hids : Set.InjOn Operator.id ops)
    (h : p.Mirrors σ source known p') (hs : s.state.Right r ops) (hs' : s'.state.Right r ops)
    (hn : r.SettlesAll ops allowed source [n]) (hreads : ∀ id, some id ∈ n.inputs → id ∈ known)
    (hcalls : CallsOnly allowed p' []) (index : Nat) :
    ∃ τ q q' f f' t t', (r.step false p index n).apply s = (.ok (q, f), t) ∧
      (r.step true p' index n).apply s' = (.ok (q', f'), t') ∧
      t.state.Right r ops ∧ t'.state.Right r ops ∧ q.Mirrors τ source (known ++ n.outputs) q' ∧
      CallsOnly allowed q' [f'] := by
  obtain ⟨types, o, rule, c, ho, hn, hsettles⟩ := hn n List.mem_cons_self
  obtain ⟨hidden, hfirst⟩ := h.first
  obtain ⟨hidden', hsecond⟩ := h.second
  obtain ⟨operands, record, t, f, s₁, hidden₁, hoperands, howned, hfills, -, hrecord, hstep, hs₁,
    hfirst₁⟩ := hsettles.exists_step hr hids hs ho hfirst hn hreads false index
  obtain ⟨operands', record', t', f', s₁', hidden₁', hoperands', -, hfills', hallowed, hrecord',
    hstep', hs₁', hsecond₁⟩ := hsettles.exists_step hr hids hs' ho hsecond hn hreads true index
  obtain ⟨τ, hmirrors⟩ := h.place hoperands hoperands' howned hfills hfills'
    (hrecord'.trans hrecord.symm) (recorded_of_step h.recorded hstep).1 hfirst₁ hsecond₁
  refine ⟨τ, _, _, f, f', s₁, s₁', hstep, hstep', hs₁, hs₁', hmirrors, fun m hm => ?_,
    List.forall_mem_singleton.2 hallowed⟩
  change m ∈ t'.nodes at hm
  rw [hfills'.advances.nodes] at hm
  rcases List.mem_append.1 hm with hm | hm
  · exact hcalls.1 m hm
  · rw [List.mem_singleton.1 hm]
    exact hsettles.called

/-- Settled calls take both programs to the end of the source. -/
theorem exists_steps_of_mirrors (hr : r.TypeDirected) (hids : Set.InjOn Operator.id ops)
    (h : p.Mirrors σ source known p') (hs : s.state.Right r ops) (hs' : s'.state.Right r ops)
    (hnodes : r.SettlesAll ops allowed source nodes) (hclosed : Node.Closed known nodes)
    (hcalls : CallsOnly allowed p' []) (index : Nat) :
    ∃ τ q q' fragments fragments' t t',
      (r.steps false p index nodes).apply s = (.ok (q, fragments), t) ∧
      (r.steps true p' index nodes).apply s' = (.ok (q', fragments'), t') ∧
      q.Mirrors τ source (known ++ nodes.flatMap (·.outputs)) q' ∧
      CallsOnly allowed q' fragments' := by
  induction nodes generalizing σ known p p' s s' index with
  | nil =>
    rw [List.flatMap_nil, List.append_nil]
    exact ⟨σ, p, p', [], [], s, s', rfl, rfl, h, hcalls⟩
  | cons n nodes ih =>
    obtain ⟨hn, hrest⟩ := List.forall_mem_cons.1 hnodes
    obtain ⟨hreads, hclosed⟩ := Node.closed_cons.1 hclosed
    obtain ⟨σ₁, p₁, p₁', f, f', s₁, s₁', hstep, hstep', hs₁, hs₁', h₁, hcalls₁, hf'⟩ :=
      exists_step_of_mirrors hr hids h hs hs' (List.forall_mem_singleton.2 hn) hreads hcalls index
    obtain ⟨τ, q, q', fragments, fragments', t, t', hsteps, hsteps', hmirrors, hall, hfragments⟩ :=
      ih h₁ hs₁ hs₁' hrest hclosed ⟨hcalls₁, nofun⟩ (index + 1)
    refine ⟨τ, q, q', _, _, t, t',
      steps_cons_eq_ok_iff.2 ⟨p₁, f, s₁, fragments, hstep, hsteps, rfl⟩,
      steps_cons_eq_ok_iff.2 ⟨p₁', f', s₁', fragments', hstep', hsteps', rfl⟩, ?_, hall, ?_⟩
    · rwa [List.flatMap_cons, ← List.append_assoc]
    · split
      · exact hfragments
      · exact List.forall_mem_cons.2 ⟨hf' f' List.mem_cons_self, hfragments⟩

variable [Scalar α] {source : Trace α}

/-- If the transforms that are selected are disciplined, a joint program joins the calls of its
forward part to those that the fragments become. -/
theorem joins_of_steps {id : TraceId} {p₀ : Progress α} {fragments : List (Fragment α)}
    {x : Replaced α} {t t' : Journaled (Decisions α)} (hstart : Progress.start id source = .ok p₀)
    (hselected : r.SelectsDisciplined (r.decisions ⟨true, id, source⟩ s))
    (hsteps : (r.steps true p₀ 0 source.nodes).apply s = (.ok (p, fragments), t))
    (h : (r.joint id source).apply s = (.ok x, t')) :
    ∃ outputs inputs cotangents replayed gradients, source.outputs.mapM p.symbolFor = .ok outputs ∧
      x.trace.Joins p fragments outputs inputs cotangents replayed gradients := by
  obtain ⟨q₀, q, left, s₁, outputs, inputs, gradients, t₁, grads, hq₀, hq, houtputs, hinputs,
    hbuild, hfinish⟩ := joint_eq_ok h
  obtain rfl := Except.ok.inj (hstart.symm.trans hq₀)
  rw [jointNodes_eq, hsteps] at hq
  obtain ⟨rfl, rfl⟩ := Prod.mk.inj (Except.ok.inj (Prod.mk.inj hq).1)
  unfold decisions at hselected
  rw [hstart] at hselected
  have hsettled := Progress.settled_start hstart
  have hleave := leaveAll_of_steps hsettled hselected.timely hsteps
  obtain ⟨cotangents, replayed, hjoins⟩ := Backward.joins_of_build hleave
    (inOrder_of_steps hsettled hselected hsteps)
    (fun _ => hleave.settled.mem_of_symbolsFor houtputs)
    (fun _ => hleave.settled.mem_of_symbolsFor hinputs) hbuild hfinish
  exact ⟨outputs, inputs, cotangents, replayed, gradients.map Symbol.id, houtputs, hjoins⟩

/-- When the calls of a source are settled, both programs can be built, and the joint program grows
out of the forward program. -/
theorem exists_grows (hr : r.TypeDirected) (hids : Set.InjOn Operator.id ops)
    (hs : s.state.Right r ops) (hs' : s'.state.Right r ops) (hsource : source.Recorded)
    (hbuilt : ∀ n ∈ source.nodes, n.op.operator.signature.Built)
    (hsettles : r.SettlesAll ops allowed source.symbols source.nodes) (id id' : TraceId)
    (hselected : r.SelectsDisciplined (r.decisions ⟨true, id', source⟩ s')) :
    ∃ x y t t', (r.forward id source).apply s = (.ok x, t) ∧
      (r.joint id' source).apply s' = (.ok y, t') ∧ y.GrowsFrom allowed source x := by
  obtain ⟨p₀, hstart, -, -, -⟩ := Progress.exists_start id hsource
  obtain ⟨p₀', hstart', -, hempty, -⟩ := Progress.exists_start id' hsource
  have hnone : CallsOnly allowed p₀' [] := ⟨fun n hn =>
    absurd (hempty ▸ hn) List.not_mem_nil, nofun⟩
  obtain ⟨σ, p, p', fragments, fragments', t, t', hsteps, hsteps', hmirrors, hcalls, hleft⟩ :=
    exists_steps_of_mirrors hr hids (Progress.mirrors_start hsource hstart hstart') hs hs' hsettles
      hsource.closed.1 hnone 0
  -- The forward program is finished as it is.
  obtain ⟨hidden, hfirst⟩ := hmirrors.first
  obtain ⟨outputs, houtputs, hshown⟩ := hfirst.exists_symbols hsource.closed.2
  have hfinish := Tracer.finish_eq_ok_iff.2 ⟨hfirst.capture, fun s hs => (hshown s hs).1, rfl⟩
  obtain ⟨t₁, hforward⟩ := exists_forward hstart hsteps houtputs hfinish
  -- The joint program gets its backward part.
  obtain ⟨-, -, -, -, -, trace, t₁', hjoint, hinterface⟩ :=
    backward_total hsource hbuilt hselected.owned hstart' hsteps'
  have htyped := callsTyped_of_joint hjoint
  obtain ⟨outs, inputs, cotangents, replayed, gradients, houts, hjoins⟩ :=
    joins_of_steps hstart' hselected hsteps' hjoint
  obtain ⟨backward, hnodes, hbackward⟩ := hjoins.nodes
  refine ⟨_, _, t₁, t₁', hforward, hjoint, hmirrors.report, ⟨σ, cotangents, backward, gradients,
    ?_, ?_, ?_, hjoins.once⟩, hjoins.closed, hinterface, htyped, fun n hn => ?_⟩
  · rw [hjoins.supplied.1, hmirrors.tracer.inputs]
  · rw [hnodes, hmirrors.tracer.nodes]
  · rw [hjoins.returned, hmirrors.symbolIds houtputs houts]
  · rw [hnodes] at hn
    rcases List.mem_append.1 hn with hn | hn
    · exact .inl (hcalls n hn)
    · refine (hbackward.mem_or hn).imp_left fun hcall => ?_
      obtain ⟨x, hx, hcall⟩ := List.mem_flatMap.1 hcall
      have hf : x.1 ∈ fragments' := by
        rw [← List.mem_reverse, ← hjoins.order]
        exact List.mem_map_of_mem hx
      obtain ⟨m, hm, hop⟩ := Fragment.exists_of_mem_calls hcall
      rw [hop]
      exact hleft x.1 hf m hm

end Replacer

end TraceSubstitution
