import Mathlib.Data.Set.List
import TraceSubstitution.Proofs.Attention.Calls
import TraceSubstitution.Proofs.Gradient.Joint
import TraceSubstitution.Proofs.Gradient.Transforms
import TraceSubstitution.Proofs.Gradient.Build
import TraceSubstitution.Proofs.Replacement.Ruleless
import TraceSubstitution.Proofs.Replacement.Tracking

/-!
# Going through additions

A replacer with the `core` namespace alone goes through a program of additions
without a failure: every addition is recorded again, on the symbols that stand for
its operands, and leaves a fragment behind that passes the gradient of the sum on
to both operands.
-/

namespace TraceSubstitution

/-- A sum of two symbols. -/
structure Addition where
  /-- The operand on the left. -/
  lhs : SymbolId
  /-- The operand on the right. -/
  rhs : SymbolId
  /-- The sum. -/
  sum : SymbolId

variable {α : Type}

namespace Addition

/-- The addition of the symbols that stand for others. -/
def rename (σ : SymbolId → SymbolId) (a : Addition) : Addition := ⟨σ a.lhs, σ a.rhs, σ a.sum⟩

theorem rename_eq {σ : SymbolId → SymbolId} {a : Addition} {lhs rhs sum : SymbolId}
    (hlhs : σ a.lhs = lhs) (hrhs : σ a.rhs = rhs) (hsum : σ a.sum = sum) :
    a.rename σ = ⟨lhs, rhs, sum⟩ := by
  rw [rename, hlhs, hrhs, hsum]

/-- What the gradient of the sum leaves behind: it is passed on to both operands. -/
def fragment (a : Addition) (placeholder : SymbolId) : Fragment α :=
  ⟨[(placeholder, a.sum)], [.accumulate a.lhs placeholder, .accumulate a.rhs placeholder]⟩

/-- The call of `core::add`, which may be replaced. -/
def node [Scalar α] (a : Addition) : Node α :=
  ⟨.highLevel Core.add, [some a.lhs, some a.rhs], .empty, [a.sum]⟩

end Addition

namespace Progress

/-- The number of what stands for a symbol of the source. -/
def rename (p : Progress α) (id : SymbolId) : SymbolId := ((p.symbols.get? id).map Symbol.id).getD id

theorem rename_of_get? {p : Progress α} {id : SymbolId} {s : Symbol}
    (h : p.symbols.get? id = some s) : p.rename id = s.id := by
  unfold rename
  rw [h]
  rfl

theorem map_rename {p : Progress α} {ids : List SymbolId} {symbols : List Symbol}
    (h : ids.map p.symbols.get? = symbols.map some) : symbols.map Symbol.id = ids.map p.rename := by
  induction ids generalizing symbols with
  | nil => rw [List.map_eq_nil_iff.1 h.symm, List.map_nil, List.map_nil]
  | cons id ids ih =>
    cases symbols with
    | nil => exact nomatch h
    | cons s symbols =>
      obtain ⟨hid, hids⟩ := List.cons_eq_cons.1 h
      rw [List.map_cons, List.map_cons, ih hids, rename_of_get? hid]

/-- Different symbols stand for different known symbols of the source. -/
structure Copies (source : List TensorType) (known : List SymbolId) (p : Progress α) : Prop where
  tracks : p.Tracks source known []
  injective : ∀ id ∈ known, ∀ other ∈ known, p.rename id = p.rename other → id = other

/-- The next symbol of a program stands for one more symbol of the source. -/
theorem Copies.advance {source : List TensorType} {known : List SymbolId} {p : Progress α}
    (h : p.Copies source known) {n : Node α} {output : TensorType} {t' : Tracer α}
    (hadvances : p.tracer.Advances n output t') (hsingle : n.outputs.tail = []) {id : SymbolId}
    (hid : source[id.index]? = some output) (hfresh : id ∉ known)
    (hreads : ∀ x, some x ∈ n.inputs → p.tracer.Shows [] x) (report : Report) {p' : Progress α}
    (hp' : p' = ⟨t', p.symbols.insert id ⟨p.tracer.id, p.tracer.nextId, output⟩, report⟩) :
    p'.Copies source (known ++ [id]) ∧ p'.rename id = p.tracer.nextId ∧
      ∀ other ∈ known, p'.rename other = p.rename other := by
  have hsame : ∀ other ∈ known, p'.rename other = p.rename other := by
    intro other hother
    have hne : other ≠ id := fun heq => hfresh (heq ▸ hother)
    unfold rename
    rw [hp', SymbolMap.get?_insert, if_neg hne]
  have hnew : p'.rename id = p.tracer.nextId := by
    refine rename_of_get? (s := ⟨p.tracer.id, p.tracer.nextId, output⟩) ?_
    rw [hp', SymbolMap.get?_insert, if_pos rfl]
  have hlt : ∀ other ∈ known, p.rename other ≠ p.tracer.nextId := by
    intro other hother heq
    obtain ⟨s, hget, howned, -⟩ := h.tracks.stands other hother
    rw [rename_of_get? hget] at heq
    exact absurd (Tracer.index_lt_of_owns howned) (heq ▸ Nat.lt_irrefl _)
  have htracks := h.tracks.advance hadvances hid hreads report
  rw [hsingle, List.append_nil, ← hp'] at htracks
  refine ⟨⟨htracks, fun x hx y hy heq => ?_⟩, hnew, hsame⟩
  rcases List.mem_append.1 hx with hx' | hx' <;> rcases List.mem_append.1 hy with hy' | hy'
  · exact h.injective x hx' y hy' (by rw [← hsame x hx', ← hsame y hy', heq])
  · rw [List.mem_singleton.1 hy', hnew, hsame x hx'] at heq
    exact absurd heq (hlt x hx')
  · rw [List.mem_singleton.1 hx', hnew, hsame y hy'] at heq
    exact absurd heq.symm (hlt y hy')
  · rw [List.mem_singleton.1 hx', List.mem_singleton.1 hy']

end Progress

variable [Scalar α]

namespace Core

/-- A replacer with the `core` namespace alone, under any overrides and options. -/
def replacer (overrides : Overrides) (options : ReplacerOptions) : Replacer α :=
  ⟨{ Registry.initial with overrides }, options⟩

variable (overrides : Overrides) (options : ReplacerOptions)

theorem rules_replacer : (replacer overrides options : Replacer α).registry.rules = [] := rfl

theorem gradientTransform_replacer :
    (replacer overrides options : Replacer α).gradientTransform add none =
      .ok (addGradient, coreSpace) := rfl

variable {overrides options} {source : List TensorType} {known : List SymbolId} {p : Progress α}
  {s : Journaled (Decisions α)} {a : Addition}

/-- The operands of an addition stand for symbols of one type, which is that of the sum. -/
theorem exists_operands (h : p.Copies source known)
    (hn : ∃ types outputs, (a.node : Node α).Typed source types outputs) (hlhs : a.lhs ∈ known)
    (hrhs : a.rhs ∈ known) : ∃ x y, p.symbols.get? a.lhs = some x ∧ p.symbols.get? a.rhs = some y ∧
      p.tracer.owns x = true ∧ p.tracer.owns y = true ∧ x.type = y.type ∧
      source[a.sum.index]? = some x.type := by
  obtain ⟨types, outputs, hn⟩ := hn
  obtain ⟨type, rfl, rfl, -⟩ := hn.of_add rfl
  obtain ⟨x, hx, hxowned, hxtype, -⟩ := h.tracks.stands a.lhs hlhs
  obtain ⟨y, hy, hyowned, hytype, -⟩ := h.tracks.stands a.rhs hrhs
  obtain ⟨hleft, hright⟩ : source[a.lhs.index]? = some type ∧ source[a.rhs.index]? = some type := by
    simpa [Addition.node] using hn.inputTypes
  have hout : source[a.sum.index]? = some type := by simpa [Addition.node] using hn.outputTypes
  obtain rfl : x.type = type := Option.some.inj (hxtype.symm.trans hleft)
  exact ⟨x, y, hx, hy, hxowned, hyowned, Option.some.inj (hright.symm.trans hytype), hout⟩

variable (overrides options) in
/-- The gradient of addition takes the place of an addition. -/
theorem exists_addition (hs : s.state.Ruleless) {x y : Symbol} (hx : p.symbols.get? a.lhs = some x)
    (hy : p.symbols.get? a.rhs = some y) (hxowned : p.tracer.owns x = true)
    (hyowned : p.tracer.owns y = true) (hsame : x.type = y.type) (index : Nat) :
    ∃ t report s' d, ((replacer overrides options).step true p index a.node).apply s =
        (.ok (⟨t, p.symbols.insert a.sum ⟨p.tracer.id, p.tracer.nextId, x.type⟩, report⟩,
          (⟨x.id, y.id, p.tracer.nextId⟩ : Addition).fragment d), s') ∧
      t.inputs = p.tracer.inputs ∧
      p.tracer.Advances (⟨x.id, y.id, p.tracer.nextId⟩ : Addition).node x.type t ∧
      ((⟨x.id, y.id, p.tracer.nextId⟩ : Addition).fragment d : Fragment α).Typed t.symbols := by
  have hoperands : p.operandsFor (a.node : Node α) = .ok [some x, some y] := by
    rw [Progress.operandsFor_eq_ok_iff]
    simp [Addition.node, hx, hy]
  obtain ⟨t, hrun, hend⟩ := apply_addGradient hxowned hyowned hsame
    (add : Operator α).qualifiedName .empty
  have htyped := ((Tracer.capturesTyped_beginBackward p.tracer).run hrun).endBackward
  have hinfer : (add : Operator α).infer ([some x, some y].map (·.map Symbol.type)) .empty =
      .ok [x.type] := by
    change add.infer [some x.type, some y.type] .empty = _
    rw [← hsame, infer_add]
  have hreplacement := Replacer.replacement_true_of_run (n := a.node)
    (gradientTransform_replacer overrides options) hrun hinfer
  obtain ⟨report, s', hstep⟩ : ∃ report s',
      ((replacer overrides options).step true p index a.node).apply s =
        (.ok (⟨t.endBackward.2, p.symbols.insert a.sum ⟨p.tracer.id, p.tracer.nextId, x.type⟩,
          report⟩, t.endBackward.1), s') := by
    obtain ⟨journal, hstep⟩ := Replacer.apply_step_of_right
      (hs.right (rules_replacer overrides options) {add}) (Set.mem_singleton add) rfl hoperands true
      index
    rw [Replacer.chosenRule_eq_none (rules_replacer overrides options)] at hstep
    simp only [Replacer.decidedStep_eq_ok_iff.2 ⟨_, _, hreplacement, rfl, rfl⟩] at hstep
    exact ⟨_, _, hstep⟩
  obtain ⟨d, hfragment⟩ : ∃ d, t.endBackward.1 =
    (⟨x.id, y.id, p.tracer.nextId⟩ : Addition).fragment d := ⟨_, congrArg Prod.fst hend⟩
  rw [hfragment] at hstep htyped
  refine ⟨_, report, s', d, hstep, ?_, ?_, htyped⟩
  · rw [hend]
  · rw [hend]
    exact ⟨rfl, rfl, rfl, [], [x.type], rfl, rfl⟩

variable (overrides options) in
/-- One addition is recorded again, and leaves a fragment behind. -/
theorem exists_step (hs : s.state.Ruleless) (h : p.Copies source known)
    (hn : ∃ types outputs, (a.node : Node α).Typed source types outputs) (hlhs : a.lhs ∈ known)
    (hrhs : a.rhs ∈ known) (hsum : a.sum ∉ known) (index : Nat) : ∃ p' s' d,
      ((replacer overrides options).step true p index a.node).apply s =
          (.ok (p', (a.rename p'.rename).fragment d), s') ∧
        p'.Copies source (known ++ [a.sum]) ∧
        (∀ id ∈ known, p'.rename id = p.rename id) ∧
        p'.tracer.inputs = p.tracer.inputs ∧
        p'.tracer.nodes = p.tracer.nodes ++ [(a.rename p'.rename).node] ∧
        p.tracer.symbols <+: p'.tracer.symbols ∧
        ((a.rename p'.rename).fragment d : Fragment α).Typed p'.tracer.symbols := by
  obtain ⟨x, y, hx, hy, hxowned, hyowned, hsame, hout⟩ := exists_operands h hn hlhs hrhs
  obtain ⟨t, report, s', d, hstep, hinputs, hadvances, htyped⟩ :=
    exists_addition overrides options hs hx hy hxowned hyowned hsame index
  have hreads : ∀ id, some id ∈ [some x.id, some y.id] → p.tracer.Shows [] id := by
    intro id hid
    rcases List.mem_pair.1 hid with hid | hid
    · exact Option.some.inj hid ▸ ⟨Tracer.index_lt_of_owns hxowned, List.not_mem_nil⟩
    · exact Option.some.inj hid ▸ ⟨Tracer.index_lt_of_owns hyowned, List.not_mem_nil⟩
  obtain ⟨hcopies, hnew, hold⟩ := h.advance hadvances rfl hout hsum hreads report rfl
  have hrename := Addition.rename_eq ((hold a.lhs hlhs).trans (Progress.rename_of_get? hx))
    ((hold a.rhs hrhs).trans (Progress.rename_of_get? hy)) hnew
  refine ⟨_, s', d, ?_, hcopies, hold, hinputs, ?_, hadvances.le, ?_⟩ <;> rw [hrename]
  · exact hstep
  · exact hadvances.nodes
  · exact htyped

/-- What additions of a source have become: they are recorded again on the symbols that stand for
the operands, and leave fragments behind. -/
structure Becomes (p p' : Progress α) (additions : List Addition) (fragments : List (Fragment α)) :
    Prop where
  inputs : p'.tracer.inputs = p.tracer.inputs
  nodes : p'.tracer.nodes = p.tracer.nodes ++ additions.map fun a => (a.rename p'.rename).node
  symbols : p.tracer.symbols <+: p'.tracer.symbols
  leaves : List.Forall₂ (fun a f => ∃ d, f = (a.rename p'.rename).fragment d) additions fragments
  typed : ∀ f ∈ fragments, f.Typed p'.tracer.symbols

variable (overrides options) in
theorem exists_steps (hs : s.state.Ruleless) (h : p.Copies source known)
    {additions : List Addition}
    (hn : ∀ a ∈ additions, ∃ types outputs, (a.node : Node α).Typed source types outputs)
    (hclosed : Node.Closed known (additions.map Addition.node : List (Node α)))
    (honce : (known ++ additions.map Addition.sum).Nodup) (index : Nat) : ∃ p' fragments s',
      ((replacer overrides options).steps true p index (additions.map Addition.node)).apply s =
          (.ok (p', fragments), s') ∧
        p'.Copies source (known ++ additions.map Addition.sum) ∧
        (∀ id ∈ known, p'.rename id = p.rename id) ∧ Becomes p p' additions fragments := by
  induction additions generalizing s p known index with
  | nil =>
    refine ⟨p, [], s, rfl, (List.append_nil known).symm ▸ h, fun _ _ => rfl, rfl, ?_,
      List.prefix_rfl, .nil, fun _ hf => absurd hf List.not_mem_nil⟩
    exact (List.append_nil _).symm
  | cons a additions ih =>
    obtain ⟨ha, hn⟩ := List.forall_mem_cons.1 hn
    obtain ⟨hreads, hclosed⟩ := Node.closed_cons.1 hclosed
    rw [List.map_cons, ← List.singleton_append, ← List.append_assoc] at honce
    have hsum : a.sum ∉ known := fun hmem =>
      (List.nodup_append.1 (List.nodup_append.1 honce).1).2.2 a.sum hmem a.sum
        (List.mem_singleton_self _) rfl
    have hlhs : a.lhs ∈ known := hreads a.lhs List.mem_cons_self
    have hrhs : a.rhs ∈ known := hreads a.rhs (List.mem_cons_of_mem _ List.mem_cons_self)
    obtain ⟨p₁, s₁, d, hstep, h₁, hold₁, hinputs₁, hnodes₁, hle₁, htyped₁⟩ :=
      exists_step overrides options hs h ha hlhs hrhs hsum index
    have hs₁ := (Replacer.ruleless_step (rules_replacer overrides options) hs true p index a.node).1
    rw [hstep] at hs₁
    obtain ⟨p', fragments, s', hsteps, h', hold, hbecomes⟩ :=
      ih hs₁ h₁ hn hclosed honce (index + 1)
    have hmem : ∀ id ∈ known, id ∈ known ++ [a.sum] := fun id hid => List.mem_append_left _ hid
    -- Later additions do not change what the symbols of this one stand for.
    have hrename : a.rename p₁.rename = a.rename p'.rename :=
      Addition.rename_eq (hold a.lhs (hmem _ hlhs)).symm (hold a.rhs (hmem _ hrhs)).symm
        (hold a.sum (List.mem_append_right _ (List.mem_singleton_self _))).symm
    rw [hrename] at hstep hnodes₁ htyped₁
    refine ⟨p', (a.rename p'.rename).fragment d :: fragments, s', ?_, ?_, ?_, ?_⟩
    · exact Replacer.steps_cons_eq_ok_iff.2 ⟨p₁, _, s₁, fragments, hstep, hsteps, rfl⟩
    · rwa [List.append_assoc] at h'
    · exact fun id hid => (hold id (hmem id hid)).trans (hold₁ id hid)
    · refine ⟨hbecomes.inputs.trans hinputs₁, ?_, hle₁.trans hbecomes.symbols,
        .cons ⟨d, rfl⟩ hbecomes.leaves,
        List.forall_mem_cons.2 ⟨htyped₁.mono hbecomes.symbols, hbecomes.typed⟩⟩
      rw [hbecomes.nodes, hnodes₁, List.append_assoc]
      rfl

omit [Scalar α] in
/-- The beginning of a program for a recorded source: different inputs stand for different ones. -/
theorem exists_start (id : TraceId) {t : Trace α} (h : t.Recorded) : ∃ p,
    Progress.start id t = .ok p ∧ p.Copies t.symbols t.inputs ∧ p.tracer.nodes = [] ∧
      p.tracer.inputs = t.inputs.map p.rename := by
  obtain ⟨p, hstart, -, hnodes, htracks⟩ := Progress.exists_start id h
  obtain ⟨types, htypes, rfl⟩ := Progress.start_eq_ok_iff.1 hstart
  have hlength : t.inputs.length = types.length := by simpa using congrArg List.length htypes
  have hrename := Progress.map_rename (p := ⟨(Tracer.empty id : Tracer α).addInputs types,
    SymbolMap.empty.insertAll t.inputs ((Tracer.empty id : Tracer α).fresh types), []⟩)
    (SymbolMap.map_get?_insertAll (List.nodup_append.1 h.nodup).1
      (hlength.trans (Tracer.length_fresh types).symm) .empty)
  refine ⟨_, hstart, ⟨htracks, fun x hx y hy heq => ?_⟩, hnodes, hrename⟩
  exact List.inj_on_of_nodup_map (hrename ▸ Tracer.nodup_map_id_fresh types) hx hy heq

theorem exists_additions {t : Trace α} (h : t.Recorded)
    (hops : ∀ n ∈ t.nodes, n.op = .highLevel add) :
    ∃ additions : List Addition, t.nodes = additions.map Addition.node := by
  have hall : t.nodes ∈ Set.range (List.map (Addition.node : Addition → Node α)) := by
    rw [Set.range_list_map]
    intro n hn
    obtain ⟨types, outputs, htyped⟩ := h.typed n hn
    obtain ⟨type, rfl, rfl, hattrs⟩ := htyped.of_add (hops n hn)
    obtain ⟨x, rest, hinputs, hx, hrest⟩ := List.map_eq_cons_iff.1 htyped.inputTypes
    obtain ⟨y, rest, rfl, hy, hnil⟩ := List.map_eq_cons_iff.1 hrest
    obtain rfl := List.map_eq_nil_iff.1 hnil
    obtain ⟨lhs, rfl, -⟩ := Option.map_eq_some_iff.1 hx
    obtain ⟨rhs, rfl, -⟩ := Option.map_eq_some_iff.1 hy
    obtain ⟨sum, rest, houtputs, -, hnil⟩ := List.map_eq_cons_iff.1 htyped.outputTypes
    obtain rfl := List.map_eq_nil_iff.1 hnil
    refine ⟨⟨lhs, rhs, sum⟩, ?_⟩
    unfold Addition.node
    rw [← hops n hn, ← hinputs, ← hattrs, ← houtputs]
  obtain ⟨additions, hadditions⟩ := hall
  exact ⟨additions, hadditions.symm⟩

theorem flatMap_outputs_node (additions : List Addition) :
    (additions.map Addition.node : List (Node α)).flatMap (·.outputs) =
      additions.map Addition.sum := by
  rw [List.flatMap_map]
  exact List.flatMap_pure_eq_map _ _

variable (overrides options) in
theorem selectsDisciplined (hs : s.state.Ruleless) (additions : List Addition) (p : Progress α)
    (index : Nat) : (replacer overrides options).SelectsDisciplined
      ((replacer overrides options).nodeDecisions true p index (additions.map Addition.node) s) := by
  intro d hd T executor hT
  obtain ⟨hrule, n, hn, hop⟩ := (Replacer.ruleless_steps (rules_replacer overrides options) hs true p
    index (additions.map Addition.node)).2 d hd
  obtain ⟨a, -, rfl⟩ := List.mem_map.1 hn
  have hadd : add = d.op := NodeOp.highLevel.inj hop
  rw [← hadd, hrule, gradientTransform_replacer] at hT
  obtain rfl : addGradient = T := (Prod.mk.inj (Except.ok.inj hT)).1
  exact disciplined_addGradient

variable (overrides options) in
theorem exists_joint (hs : s.state.Ruleless) {t : Trace α} (h : t.Recorded)
    {additions : List Addition} (hadditions : t.nodes = additions.map Addition.node)
    (id : TraceId) : ∃ p fragments x s' outputs inputs cotangents replayed gradients,
      ((replacer overrides options).joint id t).apply s = (.ok x, s') ∧
        p.Copies t.symbols (t.inputs ++ additions.map Addition.sum) ∧
        p.tracer.inputs = t.inputs.map p.rename ∧
        p.tracer.nodes = additions.map (fun a => (a.rename p.rename).node) ∧
        List.Forall₂ (fun a f => ∃ d, f = (a.rename p.rename).fragment d) additions fragments ∧
        outputs.map Symbol.id = t.outputs.map p.rename ∧
        inputs.map Symbol.id = t.inputs.map p.rename ∧
        x.trace.Joins p fragments outputs inputs cotangents replayed gradients := by
  obtain ⟨p₀, hstart, hcopies₀, hnodes₀, hinputs₀⟩ := exists_start id h
  have htyped := h.typed
  have hnodup := h.nodup
  obtain ⟨hclosed, hknown⟩ := h.closed
  rw [hadditions, flatMap_outputs_node] at hnodup hknown
  rw [hadditions] at htyped hclosed
  obtain ⟨p, fragments, s', hsteps, hcopies, hold, hbecomes⟩ := exists_steps overrides options hs
    hcopies₀ (fun a ha => htyped _ (List.mem_map_of_mem ha)) hclosed hnodup 0
  obtain ⟨outputs, houtputs, hout⟩ := hcopies.tracks.exists_symbols hknown
  obtain ⟨inputs, hinputs, hin⟩ := hcopies.tracks.exists_symbols (List.subset_append_left _ _)
  have hpublic : ∀ f ∈ fragments, f.Public fun _ => True :=
    fun f hf => ⟨fun _ _ => trivial, fun _ _ _ => .inr trivial⟩
  obtain ⟨_, gradients, b', hbuild, -, hcapture, hadds, -, hgradients⟩ :=
    Backward.build_eq_ok hcopies.tracks.capture (fun _ _ => trivial)
      (fun s hs => (hout s hs).1) (fun s hs => ⟨(hin s hs).1, trivial⟩) hbecomes.typed hpublic
  have howned : ∀ s ∈ outputs ++ gradients, b'.1.owns s = true := by
    intro s hs
    rcases List.mem_append.1 hs with hs | hs
    · exact hadds.owns (hout s hs).1
    · exact (hgradients s hs).1
  obtain ⟨trace, hfinish⟩ : ∃ trace, b'.1.finish (outputs ++ gradients) = .ok trace :=
    ⟨_, Tracer.finish_eq_ok_iff.2 ⟨hcapture, howned, rfl⟩⟩
  have hsettled := Progress.settled_start hstart
  have hselected := selectsDisciplined overrides options hs additions p₀ 0
  have hleave := Replacer.leaveAll_of_steps hsettled hselected.timely hsteps
  obtain ⟨cotangents, replayed, hjoins⟩ := Backward.joins_of_build hleave
    (Replacer.inOrder_of_steps hsettled hselected hsteps)
    (fun _ => hleave.settled.mem_of_symbolsFor houtputs)
    (fun _ => hleave.settled.mem_of_symbolsFor hinputs) hbuild hfinish
  obtain ⟨s'', hjoint⟩ := Replacer.exists_joint hstart (hadditions ▸ hsteps) houtputs hinputs hbuild
    hfinish
  have hsame : t.inputs.map p₀.rename = t.inputs.map p.rename :=
    List.map_congr_left fun id hid => (hold id hid).symm
  refine ⟨p, fragments, _, s'', outputs, inputs, cotangents, replayed, _, hjoint, hcopies,
    hbecomes.inputs.trans (hinputs₀.trans hsame), ?_, hbecomes.leaves,
    Progress.map_rename (Progress.symbolsFor_eq_ok_iff.1 houtputs),
    Progress.map_rename (Progress.symbolsFor_eq_ok_iff.1 hinputs), hjoins⟩
  rw [hbecomes.nodes, hnodes₀, List.nil_append]

end Core

end TraceSubstitution
