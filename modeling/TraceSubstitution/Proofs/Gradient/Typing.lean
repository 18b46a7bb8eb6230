import TraceSubstitution.Proofs.Gradient.Interface

/-!
# The calls of joint programs

Every call of a joint program is typed: its operator accepts the declared types of its
operands, and infers those of its outputs (`Replacer.callsTyped_of_joint`). A transform
makes calls only that have been accepted. A call that waits in a fragment is replayed
with its placeholders renamed to symbols of the same types, and the sums and zeros in
between are calls that are made like any other.

Nothing is assumed of the transforms. They may return symbols of other programs, and
such a symbol may even be an output for a while: what is typed is looked at in the
program that is finished in the end (`Moment.TypedIn`), which owns its outputs.
-/

namespace TraceSubstitution

variable {α : Type}

/-- The operator of the call accepts the declared types of its operands, and infers those of its
outputs. -/
def Node.IsTyped (symbols : List TensorType) (n : Node α) : Prop :=
  ∃ types outputs, n.Typed symbols types outputs

theorem Node.IsTyped.mono {symbols symbols' : List TensorType} {n : Node α}
    (h : n.IsTyped symbols) (hle : symbols <+: symbols') : n.IsTyped symbols' := by
  obtain ⟨types, outputs, hn⟩ := h
  exact ⟨types, outputs, hn.mono hle⟩

/-- Renaming symbols to symbols of the same types keeps the types. -/
theorem SymbolMap.getElem?_rename {symbols : List TensorType} {m : SymbolMap SymbolId}
    (hm : ∀ id g, m.get? id = some g → Alike symbols id g) (id : SymbolId) :
    symbols[(m.rename id).index]? = symbols[id.index]? := by
  unfold SymbolMap.rename
  cases hget : m.get? id with
  | none => rfl
  | some g =>
    obtain ⟨type, hid, hg⟩ := hm id g hget
    exact hg.trans hid.symm

/-- Renaming symbols to symbols of the same types leaves a call typed. -/
theorem Node.IsTyped.renamed {symbols : List TensorType} {n : Node α} (h : n.IsTyped symbols)
    {m : SymbolMap SymbolId} (hm : ∀ id g, m.get? id = some g → Alike symbols id g) :
    (n.renamed m).IsTyped symbols := by
  obtain ⟨types, outputs, hn⟩ := h
  refine ⟨types, outputs, ?_, hn.outputTypes, hn.bound, hn.inferred⟩
  rw [← hn.inputTypes]
  change (n.inputs.map (·.map m.rename)).map _ = _
  rw [List.map_map]
  refine List.map_congr_left fun x hx => ?_
  cases x with
  | none => rfl
  | some id => exact congrArg some (SymbolMap.getElem?_rename hm id)

/-- The calls that wait in the fragment are typed. -/
def Fragment.CallsTyped (symbols : List TensorType) (f : Fragment α) : Prop :=
  ∀ n, .node n ∈ f.steps → n.IsTyped symbols

theorem Fragment.CallsTyped.mono {symbols symbols' : List TensorType} {f : Fragment α}
    (h : f.CallsTyped symbols) (hle : symbols <+: symbols') : f.CallsTyped symbols' :=
  fun n hn => (h n hn).mono hle

/-- All calls that have been made are typed, those that the open capture has taken over included. -/
structure Tracer.CallsTyped (t : Tracer α) : Prop where
  nodes : ∀ n ∈ t.nodes, n.IsTyped t.symbols
  captured : ∀ c, t.capture = some c → c.toFragment.CallsTyped t.symbols

namespace Tracer.CallsTyped

variable {t t' : Tracer α}

/-- More symbols make no difference. -/
theorem declare (h : t.CallsTyped) (types : List TensorType) : (t.declare types).CallsTyped :=
  have hle : t.symbols <+: t.symbols ++ types := List.prefix_append _ _
  ⟨fun n hn => (h.nodes n hn).mono hle, fun c hc => (h.captured c hc).mono hle⟩

theorem append (h : t.CallsTyped) {n : Node α} (hn : n.IsTyped t.symbols) :
    (t.append n).CallsTyped := by
  have hrecorded : ({ t with nodes := t.nodes ++ [n] } : Tracer α).CallsTyped := by
    refine ⟨fun m hm => ?_, h.captured⟩
    rcases List.mem_append.1 hm with hm | hm
    · exact h.nodes m hm
    · exact List.mem_singleton.1 hm ▸ hn
  unfold Tracer.append
  split
  · next c hcapture =>
    split
    · refine ⟨h.nodes, fun c' hc' m hm => ?_⟩
      obtain rfl : c.divert n = c' := Option.some.inj hc'
      rcases List.mem_append.1 hm with hm | hm
      · exact h.captured c hcapture m hm
      · obtain rfl := BackwardStep.node.inj (List.mem_singleton.1 hm)
        exact hn
    · exact hrecorded
  · exact hrecorded

/-- A call that has been accepted is typed. -/
theorem call (h : t.CallsTyped) {op : NodeOp α} {operands : List (Option Symbol)} {attrs : Attrs}
    {results : List Symbol}
    (hcall : (Tracer.call op operands attrs).apply t = (.ok results, t')) : t'.CallsTyped := by
  obtain ⟨bound, types, hbound, htypes, howned, -, rfl⟩ := call_eq_ok_iff.1 hcall
  exact (h.declare types).append ⟨_, types, typed_of_owns hbound htypes howned⟩

theorem incomingGradient (h : t.CallsTyped) {primal gradient : Symbol}
    (hincoming : (Tracer.incomingGradient primal).apply t = (.ok gradient, t')) :
    t'.CallsTyped := by
  obtain ⟨-, c, hc, ⟨_, -, -, rfl⟩ | ⟨-, -, rfl⟩⟩ := incomingGradient_eq_ok_iff.1 hincoming
  · exact h
  · refine ⟨(h.declare [primal.type]).nodes, fun c' hc' => ?_⟩
    obtain rfl : c.addPlaceholder t.nextId primal.id = c' := Option.some.inj hc'
    exact (h.declare [primal.type]).captured c hc

theorem accumulateGradient (h : t.CallsTyped) {target contribution : Symbol}
    (haccumulate : (Tracer.accumulateGradient target contribution).apply t = (.ok (), t')) :
    t'.CallsTyped := by
  obtain ⟨-, -, -, c, hc, rfl⟩ := accumulateGradient_eq_ok_iff.1 haccumulate
  refine ⟨h.nodes, fun c' hc' n hn => ?_⟩
  obtain rfl : c.accumulate target.id contribution.id = c' := Option.some.inj hc'
  rcases List.mem_append.1 hn with hn | hn
  · exact h.captured c hc n hn
  · exact nomatch List.mem_singleton.1 hn

/-- Whatever a transform does, it makes typed calls. -/
theorem run (h : t.CallsTyped) {β : Type} {r : Recipe α β} {b : β}
    (hrun : r.run.apply t = (.ok b, t')) : t'.CallsTyped :=
  Recipe.keeps_of_run (fun _ _ _ _ _ _ ht hcall => ht.call hcall)
    (fun _ _ _ _ ht hincoming => ht.incomingGradient hincoming)
    (fun _ _ _ _ ht haccumulate => ht.accumulateGradient haccumulate) h hrun

theorem beginBackward (h : t.CallsTyped) : t.beginBackward.CallsTyped := by
  refine ⟨h.nodes, fun c hc n hn => ?_⟩
  obtain rfl : Capture.empty = c := Option.some.inj hc
  exact nomatch hn

theorem endBackward (h : t.CallsTyped) :
    t.endBackward.2.CallsTyped ∧ t.endBackward.1.CallsTyped t.symbols := by
  refine ⟨⟨h.nodes, nofun⟩, fun n hn => ?_⟩
  unfold Tracer.endBackward at hn
  cases hcapture : t.capture with
  | none =>
    rw [hcapture] at hn
    exact nomatch hn
  | some c =>
    rw [hcapture] at hn
    exact h.captured c hcapture n hn

end Tracer.CallsTyped

theorem Tracer.Recorded.callsTyped {t : Tracer α} (h : t.Recorded) : t.CallsTyped :=
  ⟨h.typed, fun _ hc => nomatch h.capture_eq_none.symm.trans hc⟩

namespace Replacer

variable {r : Replacer α} {p p' : Progress α} {index : Nat} {n : Node α} {nodes : List (Node α)}
  {s s' : Journaled (Decisions α)} {fragment : Fragment α} {fragments : List (Fragment α)}

/-- One call of the source: what its gradient transform records is typed, and so is what it leaves
behind. -/
theorem callsTyped_of_step (hp : p.tracer.CallsTyped)
    (h : (r.step true p index n).apply s = (.ok (p', fragment), s')) :
    p'.tracer.CallsTyped ∧ fragment.CallsTyped p'.tracer.symbols ∧
      p.tracer.symbols <+: p'.tracer.symbols := by
  obtain ⟨o, operands, outputs, rule, T, executor, t, -, -, -, -, -, hrun, -, rfl, htracer⟩ :=
    exists_gradient_of_step h
  obtain ⟨htyped, hfragment⟩ := (hp.beginBackward.run hrun).endBackward
  rw [htracer]
  exact ⟨htyped, hfragment, (Recipe.extends_of_run hrun).symbols⟩

theorem callsTyped_of_steps (hp : p.tracer.CallsTyped)
    (h : (r.steps true p index nodes).apply s = (.ok (p', fragments), s')) :
    p'.tracer.CallsTyped ∧ (∀ f ∈ fragments, f.CallsTyped p'.tracer.symbols) ∧
      p.tracer.symbols <+: p'.tracer.symbols := by
  induction nodes generalizing p index s fragments with
  | nil =>
    obtain ⟨rfl, rfl⟩ := Prod.mk.inj (Except.ok.inj (Prod.mk.inj h).1)
    exact ⟨hp, nofun, List.prefix_rfl⟩
  | cons n nodes ih =>
    obtain ⟨p₁, fragment, s₁, rest, hstep, hrest, rfl⟩ := steps_cons_eq_ok_iff.1 h
    obtain ⟨hp₁, hfragment, hle₁⟩ := callsTyped_of_step hp hstep
    obtain ⟨hp', hfragments, hle⟩ := ih hp₁ hrest
    refine ⟨hp', ?_, hle₁.trans hle⟩
    split
    · exact hfragments
    · exact List.forall_mem_cons.2 ⟨hfragment.mono hle, hfragments⟩

end Replacer

namespace Replacer

variable {r : Replacer α} {p p' : Progress α} {index : Nat} {nodes : List (Node α)}
  {s s' : Journaled (Decisions α)} {fragments : List (Fragment α)}

/-- After the calls of the source no capture is open, and all fragments fit, whatever the transforms
have returned. -/
theorem fragmentsTyped_of_steps (hp : p.tracer.capture = none)
    (h : (r.steps true p index nodes).apply s = (.ok (p', fragments), s')) :
    p'.tracer.capture = none ∧ (∀ f ∈ fragments, f.Typed p'.tracer.symbols) ∧
      p.tracer.symbols <+: p'.tracer.symbols := by
  induction nodes generalizing p index s fragments with
  | nil =>
    obtain ⟨rfl, rfl⟩ := Prod.mk.inj (Except.ok.inj (Prod.mk.inj h).1)
    exact ⟨hp, nofun, List.prefix_rfl⟩
  | cons n nodes ih =>
    obtain ⟨p₁, fragment, s₁, rest, hstep, hrest, rfl⟩ := steps_cons_eq_ok_iff.1 h
    obtain ⟨_, _, _, _, _, _, t, -, -, -, -, -, hrun, -, rfl, htracer⟩ :=
      exists_gradient_of_step hstep
    have hfragment := ((Tracer.capturesTyped_beginBackward p.tracer).run hrun).endBackward
    have hle₁ := (Recipe.extends_of_run hrun).symbols
    have hp₁ : p₁.tracer.capture = none := congrArg Tracer.capture htracer
    obtain ⟨hp', hfragments, hle⟩ := ih hp₁ hrest
    rw [htracer] at hle
    refine ⟨hp', ?_, hle₁.trans hle⟩
    split
    · exact hfragments
    · exact List.forall_mem_cons.2 ⟨hfragment.mono hle, hfragments⟩

end Replacer

/-- The program is one of those that grow into a program with the given symbols: there all calls
made so far are typed, and the gradients that are bound have the types of their symbols. -/
structure Backward.TypedIn (symbols : List TensorType) (b : Backward α) : Prop where
  capture : b.1.capture = none
  calls : ∀ n ∈ b.1.nodes, n.IsTyped symbols
  bound : ∀ id g, b.2.get? id = some g →
    symbols[id.index]? = some g.type ∧ symbols[g.id.index]? = some g.type

variable [Scalar α] {symbols : List TensorType}

namespace Backward

variable {b b' : Backward α}

/-- Contributions only add symbols. -/
theorem symbols_of_accumulate {primal : SymbolId} {x : Symbol}
    (hrun : (GradientBinding.accumulate primal x).apply b = (.ok (), b')) :
    b.1.symbols <+: b'.1.symbols := by
  rcases GradientBinding.exists_of_accumulate hrun with ⟨-, rfl⟩ | ⟨_, _, t, -, hsum, rfl⟩
  · exact List.prefix_rfl
  · obtain ⟨_, t', hcall, hsingle⟩ := Act.apply_bind_eq_ok_iff.1 hsum
    obtain rfl : t' = t := (Prod.mk.inj hsingle).2
    exact (Tracer.extends_of_call hcall).symbols

theorem symbols_of_gradientOrZeros {id : SymbolId} {primal : Act (Tracer α) Symbol}
    (hprimal : ∀ x t, primal.apply b.1 = (.ok x, t) → t = b.1) {g : Symbol}
    (hrun : (gradientOrZeros id primal).apply b = (.ok g, b')) :
    b.1.symbols <+: b'.1.symbols := by
  rcases exists_of_gradientOrZeros hrun with ⟨-, rfl⟩ | ⟨-, x, t, t', hx, hzeros, rfl⟩
  · exact List.prefix_rfl
  · obtain rfl := hprimal x t hx
    obtain ⟨_, t₁, hcall, hsingle⟩ := Act.apply_bind_eq_ok_iff.1 hzeros
    obtain rfl : t₁ = t' := (Prod.mk.inj hsingle).2
    exact (Tracer.extends_of_call hcall).symbols

omit [Scalar α] in
/-- Looking a symbol up changes nothing. -/
theorem eq_of_symbol {t t' : Tracer α} {id : SymbolId} {x : Symbol}
    (h : (do Act.lift ((← get).symbol id) : Act (Tracer α) Symbol).apply t = (.ok x, t')) :
    t' = t ∧ t.symbols[id.index]? = some x.type := by
  obtain ⟨hsymbol, rfl⟩ := Prod.mk.inj h
  unfold Tracer.symbol at hsymbol
  obtain ⟨type, htype, rfl⟩ := map_eq_ok_iff.1 hsymbol
  exact ⟨rfl, orError_eq_ok_iff.1 htype⟩

/-- A contribution is looked up under its new name. -/
theorem exists_of_replay_accumulate {m : SymbolMap SymbolId} {target contribution : SymbolId}
    (hrun : (replayStep m (.accumulate target contribution)).apply b = (.ok (), b')) :
    ∃ x : Symbol, x.id = m.rename contribution ∧ b.1.symbols[x.id.index]? = some x.type ∧
      (GradientBinding.accumulate target x).apply b = (.ok (), b') := by
  obtain ⟨x, b₁, hx, haccumulate⟩ := Act.apply_bind_eq_ok_iff.1 hrun
  rw [apply_onTracer] at hx
  obtain ⟨hsymbol, rfl⟩ := Prod.mk.inj hx
  change b.1.symbol (m.rename contribution) = .ok x at hsymbol
  unfold Tracer.symbol at hsymbol
  obtain ⟨type, htype, rfl⟩ := map_eq_ok_iff.1 hsymbol
  exact ⟨_, rfl, orError_eq_ok_iff.1 htype, haccumulate⟩

omit [Scalar α] in
/-- A call of a kernel operator with one result, in a program that goes on growing. -/
theorem TypedIn.single (h : b.TypedIn symbols) {o : Operator α} {operands : List (Option Symbol)}
    {attrs : Attrs} {g : Symbol} {t : Tracer α}
    (hrun : (do single (← Tracer.call (.kernel o) operands attrs) : Act (Tracer α) Symbol).apply b.1
      = (.ok g, t)) (hle : t.symbols <+: symbols) :
    TypedIn symbols (t, b.2) ∧ symbols[g.id.index]? = some g.type ∧
      ∃ bound, o.inferBound (operands.map (·.map Symbol.type)) bound = .ok [g.type] := by
  obtain ⟨results, t', hcall, hsingle⟩ := Act.apply_bind_eq_ok_iff.1 hrun
  obtain rfl : t' = t := (Prod.mk.inj hsingle).2
  obtain rfl : results = [g] := single_eq_ok_iff.1 (Prod.mk.inj hsingle).1
  obtain ⟨bound, types, hbound, htypes, howned, hresults, rfl⟩ := Tracer.call_eq_ok_iff.1 hcall
  obtain rfl : [g.type] = types := by
    rw [← Tracer.map_type_fresh (t := b.1) types, ← hresults]
    rfl
  rw [Tracer.declare_append h.capture] at hle ⊢
  have htyped := Tracer.typed_of_owns hbound htypes howned
  have hfresh := Tracer.map_getElem?_fresh (t := b.1) [g.type]
  rw [← hresults] at hfresh
  refine ⟨⟨h.capture, fun n hn => ?_, h.bound⟩,
    Node.getElem?_of_le hle (List.cons_eq_cons.1 hfresh).1, bound, htypes⟩
  rcases List.mem_append.1 hn with hn | hn
  · exact h.calls n hn
  · exact List.mem_singleton.1 hn ▸ ⟨_, _, htyped.mono hle⟩

/-- A contribution of the type of its target. -/
theorem TypedIn.accumulate (h : b.TypedIn symbols) {primal : SymbolId} {x : Symbol}
    (hprimal : symbols[primal.index]? = some x.type) (hx : symbols[x.id.index]? = some x.type)
    (hrun : (GradientBinding.accumulate primal x).apply b = (.ok (), b'))
    (hle : b'.1.symbols <+: symbols) : b'.TypedIn symbols := by
  have hinsert : ∀ {t : Tracer α} {g : Symbol}, TypedIn symbols (t, b.2) → g.type = x.type →
      symbols[g.id.index]? = some g.type → TypedIn symbols (t, b.2.insert primal g) := by
    intro t g ht htype hg
    refine ⟨ht.capture, ht.calls, fun id g' hg' => ?_⟩
    rw [SymbolMap.get?_insert] at hg'
    split at hg'
    · next heq =>
      obtain rfl := Option.some.inj hg'
      exact ⟨heq ▸ htype ▸ hprimal, hg⟩
    · exact h.bound id g' hg'
  rcases GradientBinding.exists_of_accumulate hrun with ⟨-, rfl⟩ | ⟨existing, total, t, -, hsum, rfl⟩
  · exact hinsert h rfl hx
  · obtain ⟨ht, htotal, bound, hinfer⟩ := h.single hsum hle
    obtain ⟨type, -, hrhs, htypes⟩ := Core.inferBound_add_eq_ok_iff.1 hinfer
    have htype : total.type = x.type :=
      (List.cons_eq_cons.1 htypes).1.trans (Option.some.inj hrhs).symm
    exact hinsert ht htype htotal

/-- A cotangent of an output that has its type in the end. -/
theorem TypedIn.addCotangent (h : b.TypedIn symbols) {output : Symbol}
    (houtput : symbols[output.id.index]? = some output.type)
    (hrun : (Backward.addCotangent output).apply b = (.ok (), b'))
    (hle : b'.1.symbols <+: symbols) : b'.TypedIn symbols := by
  have hinput : TypedIn symbols ((b.1.input output.type).2, b.2) := ⟨h.capture, h.calls, h.bound⟩
  have hrun' : (GradientBinding.accumulate output.id (b.1.input output.type).1).apply
      ((b.1.input output.type).2, b.2) = (.ok (), b') := hrun
  have hgrown : b.1.symbols ++ [output.type] <+: symbols :=
    (symbols_of_accumulate hrun').trans hle
  have hcotangent : symbols[b.1.nextId.index]? = some output.type := by
    refine Node.getElem?_of_le hgrown ?_
    simp [Tracer.nextId]
  exact hinput.accumulate (x := ⟨b.1.id, b.1.nextId, output.type⟩) houtput hcotangent hrun' hle

/-- A gradient that is asked for has the type of the symbol it belongs to. -/
theorem TypedIn.gradientOrZeros (h : b.TypedIn symbols) {id : SymbolId}
    {primal : Act (Tracer α) Symbol} (hprimal : ∀ x t, primal.apply b.1 = (.ok x, t) → t = b.1)
    {g : Symbol} (hrun : (Backward.gradientOrZeros id primal).apply b = (.ok g, b'))
    (hle : b'.1.symbols <+: symbols) : b'.TypedIn symbols ∧ symbols[g.id.index]? = some g.type ∧
      (symbols[id.index]? = some g.type ∨
        ∃ x, primal.apply b.1 = (.ok x, b.1) ∧ g.type = x.type) := by
  rcases exists_of_gradientOrZeros hrun with ⟨hget, rfl⟩ | ⟨-, x, t, t', hx, hzeros, rfl⟩
  · obtain ⟨hid, hg⟩ := h.bound id g hget
    exact ⟨h, hg, .inl hid⟩
  · obtain rfl := hprimal x t hx
    obtain ⟨ht, hg, bound, hinfer⟩ := h.single hzeros hle
    have htypes : [x.type] = [g.type] := Except.ok.inj hinfer
    exact ⟨ht, hg, .inr ⟨x, hx, (List.cons_eq_cons.1 htypes).1.symm⟩⟩

end Backward

/-- The symbols of the step have the types that they must have, and a call that it replays is
typed. -/
def BuildStep.TypedIn (symbols : List TensorType) : BuildStep α → Prop
  | cotangent output => symbols[output.id.index]? = some output.type
  | resolve placeholder primal => Alike symbols placeholder primal
  | replay (.node n) => n.IsTyped symbols
  | replay (.accumulate target contribution) => Alike symbols target contribution
  | close => True
  | fill _ => True

namespace Moment

variable {m m' : Moment α} {steps : List (BuildStep α)}

/-- What is typed in the program that the moment leads to; placeholders are resolved to symbols of
their types. -/
structure TypedIn (symbols : List TensorType) (m : Moment α) : Prop where
  backward : m.backward.TypedIn symbols
  renamed : ∀ id g, m.renamed.get? id = some g → Alike symbols id g

/-- Steps only add symbols. -/
theorem symbols_of_perform {step : BuildStep α} (h : m.perform step = .ok m') :
    m.backward.1.symbols <+: m'.backward.1.symbols := by
  cases step with
  | cotangent output =>
    obtain ⟨⟨_, b⟩, hrun, rfl⟩ := map_eq_ok_iff.1 h
    have hrun' : (GradientBinding.accumulate output.id (m.backward.1.input output.type).1).apply
        ((m.backward.1.input output.type).2, m.backward.2) = (.ok (), b) :=
      Act.outcome_eq_ok_iff.1 hrun
    exact (List.prefix_append _ [output.type]).trans (Backward.symbols_of_accumulate hrun')
  | resolve placeholder primal =>
    obtain ⟨⟨_, b⟩, hrun, rfl⟩ := map_eq_ok_iff.1 h
    obtain ⟨g, b', hgradient, hpure⟩ := Act.apply_bind_eq_ok_iff.1 (Act.outcome_eq_ok_iff.1 hrun)
    obtain rfl : b' = b := (Prod.mk.inj hpure).2
    exact Backward.symbols_of_gradientOrZeros (fun _ _ hx => (Backward.eq_of_symbol hx).1) hgradient
  | replay s =>
    obtain ⟨⟨_, b⟩, hrun, rfl⟩ := map_eq_ok_iff.1 h
    rcases Backward.replayStep_eq_ok (Act.outcome_eq_ok_iff.1 hrun) with
      ⟨n, -, rfl⟩ | ⟨_, _, _, -, -, haccumulate⟩
    · exact List.prefix_rfl
    · exact Backward.symbols_of_accumulate haccumulate
  | close =>
    obtain rfl := Except.ok.inj h
    exact List.prefix_rfl
  | fill input =>
    obtain ⟨⟨_, b⟩, hrun, rfl⟩ := map_eq_ok_iff.1 h
    exact Backward.symbols_of_gradientOrZeros (fun _ _ hx => (Prod.mk.inj hx).2.symm)
      (Act.outcome_eq_ok_iff.1 hrun)

theorem symbols_of_run (h : m.run steps = .ok m') :
    m.backward.1.symbols <+: m'.backward.1.symbols := by
  induction steps generalizing m with
  | nil => exact Except.ok.inj h ▸ List.prefix_rfl
  | cons step steps ih =>
    rw [run_cons] at h
    obtain ⟨m₁, hone, hrest⟩ := bind_eq_ok_iff.1 h
    exact (symbols_of_perform hone).trans (ih hrest)

/-- A step that is typed makes typed calls only. -/
theorem TypedIn.perform (h : m.TypedIn symbols) {step : BuildStep α} (hstep : step.TypedIn symbols)
    (hperform : m.perform step = .ok m') (hle : m'.backward.1.symbols <+: symbols) :
    m'.TypedIn symbols := by
  cases step with
  | cotangent output =>
    obtain ⟨⟨_, b⟩, hrun, rfl⟩ := map_eq_ok_iff.1 hperform
    exact ⟨h.backward.addCotangent hstep (Act.outcome_eq_ok_iff.1 hrun) hle, h.renamed⟩
  | resolve placeholder primal =>
    obtain ⟨⟨_, b⟩, hrun, rfl⟩ := map_eq_ok_iff.1 hperform
    obtain ⟨g, b', hgradient, hpure⟩ := Act.apply_bind_eq_ok_iff.1 (Act.outcome_eq_ok_iff.1 hrun)
    obtain ⟨hrenamed, rfl⟩ := Prod.mk.inj hpure
    obtain rfl := Except.ok.inj hrenamed
    obtain ⟨type, hplaceholder, hprimal⟩ := hstep
    obtain ⟨hb, hg, hcase⟩ := h.backward.gradientOrZeros
      (fun _ _ hx => (Backward.eq_of_symbol hx).1) hgradient hle
    -- The gradient that is bound has the type of the primal, and so have zeros that are made.
    have htype : g.type = type := by
      rcases hcase with hbound | ⟨x, hx, htype⟩
      · exact Option.some.inj (hbound.symm.trans hprimal)
      · have hread := Node.getElem?_of_le ((symbols_of_perform hperform).trans hle)
          (Backward.eq_of_symbol hx).2
        exact htype.trans (Option.some.inj (hread.symm.trans hprimal))
    refine ⟨hb, fun id g' hg' => ?_⟩
    rw [SymbolMap.get?_insert] at hg'
    split at hg'
    · next heq =>
      obtain rfl := Option.some.inj hg'
      exact ⟨type, heq ▸ hplaceholder, htype ▸ hg⟩
    · exact h.renamed id g' hg'
  | replay s =>
    obtain ⟨⟨_, b⟩, hrun, rfl⟩ := map_eq_ok_iff.1 hperform
    cases s with
    | node n =>
      have happly := Act.outcome_eq_ok_iff.1 hrun
      obtain rfl : (m.backward.1.replay n m.renamed, m.backward.2) = b := (Prod.mk.inj happly).2
      refine ⟨⟨h.backward.capture, fun k hk => ?_, h.backward.bound⟩, h.renamed⟩
      rcases List.mem_append.1 hk with hk | hk
      · exact h.backward.calls k hk
      · exact List.mem_singleton.1 hk ▸ Node.IsTyped.renamed hstep h.renamed
    | accumulate target contribution =>
      obtain ⟨type, htarget, hcontribution⟩ := hstep
      obtain ⟨x, hid, hread, haccumulate⟩ :=
        Backward.exists_of_replay_accumulate (Act.outcome_eq_ok_iff.1 hrun)
      have hx := Node.getElem?_of_le ((Backward.symbols_of_accumulate haccumulate).trans hle) hread
      have htype : x.type = type := by
        rw [hid, SymbolMap.getElem?_rename h.renamed, hcontribution] at hx
        exact (Option.some.inj hx).symm
      exact ⟨h.backward.accumulate (htype ▸ htarget) hx haccumulate hle, h.renamed⟩
  | close =>
    obtain rfl := Except.ok.inj hperform
    exact ⟨h.backward, nofun⟩
  | fill input =>
    obtain ⟨⟨g, b⟩, hrun, rfl⟩ := map_eq_ok_iff.1 hperform
    exact ⟨(h.backward.gradientOrZeros (fun _ _ hx => (Prod.mk.inj hx).2.symm)
      (Act.outcome_eq_ok_iff.1 hrun) hle).1, h.renamed⟩

/-- Steps that are typed make typed calls only. -/
theorem TypedIn.run (h : m.TypedIn symbols) (hsteps : ∀ step ∈ steps, step.TypedIn symbols)
    (hrun : m.run steps = .ok m') (hle : m'.backward.1.symbols <+: symbols) :
    m'.TypedIn symbols := by
  induction steps generalizing m with
  | nil => exact Except.ok.inj hrun ▸ h
  | cons step steps ih =>
    obtain ⟨hstep, hsteps⟩ := List.forall_mem_cons.1 hsteps
    rw [run_cons] at hrun
    obtain ⟨m₁, hone, hrest⟩ := bind_eq_ok_iff.1 hrun
    exact ih (h.perform hstep hone ((symbols_of_run hrest).trans hle)) hsteps hrest

end Moment

omit [Scalar α] in
/-- The steps that build the backward part are typed, if the fragments fit and their calls are
typed. -/
theorem Backward.typedIn_steps {fragments : List (Fragment α)} {outputs : List Symbol}
    (houtputs : ∀ s ∈ outputs, symbols[s.id.index]? = some s.type)
    (hcalls : ∀ f ∈ fragments, f.CallsTyped symbols) (hfits : ∀ f ∈ fragments, f.Typed symbols)
    (inputs : List Symbol) : ∀ step ∈ steps outputs inputs fragments, step.TypedIn symbols := by
  intro step hstep
  rcases List.mem_append.1 hstep with hstep | hstep
  · rcases List.mem_append.1 hstep with hstep | hstep
    · obtain ⟨output, houtput, rfl⟩ := List.mem_map.1 hstep
      exact houtputs output houtput
    · obtain ⟨f, hf, hstep⟩ := List.mem_flatMap.1 hstep
      have hf := List.mem_reverse.1 hf
      rcases List.mem_append.1 hstep with hstep | hstep
      · rcases List.mem_append.1 hstep with hstep | hstep
        · obtain ⟨x, hx, rfl⟩ := List.mem_map.1 hstep
          exact (hfits f hf).placeholders x hx
        · obtain ⟨part, hpart, rfl⟩ := List.mem_map.1 hstep
          cases part with
          | node n => exact hcalls f hf n hpart
          | accumulate target contribution =>
            exact (hfits f hf).contributions target contribution hpart
      · exact List.mem_singleton.1 hstep ▸ trivial
  · obtain ⟨input, -, rfl⟩ := List.mem_map.1 hstep
    trivial

namespace Replacer

variable {r : Replacer α} {id : TraceId} {source : Trace α} {s s' : Journaled (Decisions α)}

/-- Every call of a joint program is typed. -/
theorem callsTyped_of_joint {x : Replaced α}
    (h : (r.joint id source).apply s = (.ok x, s')) : ∀ n ∈ x.trace.nodes,
      n.IsTyped x.trace.symbols := by
  obtain ⟨p₀, p, fragments, s₁, outputs, inputs, gradients, t, grads, hstart, hnodes, -, -, hbuild,
    hfinish⟩ := joint_eq_ok h
  rw [jointNodes_eq] at hnodes
  have hrecorded := (recorded_of_start hstart).1
  obtain ⟨hforward, hcalls, -⟩ := callsTyped_of_steps hrecorded.callsTyped hnodes
  obtain ⟨hcapture, hfits, -⟩ := fragmentsTyped_of_steps hrecorded.capture_eq_none hnodes
  have hbuilding := Backward.outcome_build p.tracer outputs inputs fragments
  rw [Act.outcome_eq_ok_iff.2 hbuild] at hbuilding
  obtain ⟨m, hrun, heq⟩ := map_eq_ok_iff.1 hbuilding.symm
  obtain rfl : m.backward.1 = t := congrArg (fun y => y.2.1) heq
  obtain ⟨-, howned, hx⟩ := Tracer.finish_eq_ok_iff.1 hfinish
  -- Everything is looked at in the program that is finished in the end.
  have hle := Moment.symbols_of_run hrun
  have hstarted : (Backward.atStart p.tracer).TypedIn m.backward.1.symbols :=
    ⟨⟨hcapture, fun n hn => (hforward.nodes n hn).mono hle, nofun⟩, nofun⟩
  have htyped := hstarted.run (Backward.typedIn_steps
    (fun s hs => (Tracer.owns_iff.1 (howned s (List.mem_append_left _ hs))).2)
    (fun f hf => (hcalls f hf).mono hle) (fun f hf => (hfits f hf).mono hle) inputs) hrun
    List.prefix_rfl
  rw [hx]
  exact htyped.backward.calls

end Replacer

end TraceSubstitution
