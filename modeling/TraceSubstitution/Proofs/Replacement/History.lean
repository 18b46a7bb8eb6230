import TraceSubstitution.Proofs.Registry.Kernels
import TraceSubstitution.Proofs.Replacement.Plain
import TraceSubstitution.Proofs.Trace.Recorded

/-!
# Decisions do not depend on the history

A replacer answers requests one after the other, and some of them fail. All its
decisions are those that the rules lead to when they are tried in order
(`Decided.Follows`), a decision is marked as remembered only if one under the same
key was made before, and all answers are those of a replacer that remembers
nothing: `Replacer.answer_after`.
-/

namespace TraceSubstitution

variable {α : Type}

/-- The decision is the one that the candidates lead to when they are tried in order. -/
structure Decided.Follows (r : Replacer α) (d : Decided α) : Prop where
  outcome : d.record.outcome = Replacer.outcomeOf d.rule
  substituted : ∀ rule, d.rule = some rule ↔ ∃ earlier later,
    r.registry.candidateRules d.op r.options.executors d.gradient = earlier ++ rule :: later ∧
      rule.admits d.args = .ok true ∧ ∀ x ∈ earlier, x.admits d.args = .ok false
  fallback : d.rule = none ↔
    ∀ rule ∈ r.registry.candidateRules d.op r.options.executors d.gradient,
      rule.admits d.args = .ok false

/-- A rule that is chosen is one of the registry. -/
theorem Decided.Follows.mem_rules {r : Replacer α} {d : Decided α} {rule : Rule α}
    (h : d.Follows r) (hrule : d.rule = some rule) : rule ∈ r.registry.rules := by
  obtain ⟨earlier, later, hcandidates, -, -⟩ := (h.substituted rule).1 hrule
  have hmem : rule ∈ r.registry.candidateRules d.op r.options.executors d.gradient :=
    hcandidates ▸ List.mem_append_right earlier List.mem_cons_self
  exact (Registry.mem_of_mem_candidateRules hmem).1

/-- The position and the operator of a call, if it is a high-level one. -/
def Node.highLevelAt? (n : Node α) (index : Nat) : Option (Nat × Operator α) :=
  match n.op with
  | .highLevel o => some (index, o)
  | .kernel _ => none

/-- The high-level calls of a source with their positions. -/
def Trace.highLevelCalls (p : Trace α) : List (Nat × Operator α) :=
  p.nodes.zipIdx.filterMap fun (n, index) => n.highLevelAt? index

/-- The keys under which decisions are remembered. -/
def Decisions.keys (d : Decisions α) : List DispatchKey := d.entries.map (·.1)

theorem Decisions.mem_keys_of_find? {d : Decisions α} {key : DispatchKey}
    (h : (d.find? key).isSome = true) : key ∈ d.keys := by
  obtain ⟨rule, hrule⟩ := Option.isSome_iff_exists.1 h
  exact List.mem_map.2 ⟨(key, rule), mem_of_find? hrule, rfl⟩

theorem Decisions.mem_keys_remember {d : Decisions α} {key other : DispatchKey}
    {rule : Option (Rule α)} (h : other ∈ (d.remember key rule).keys) :
    other = key ∨ other ∈ d.keys := by
  obtain ⟨e, he, rfl⟩ := List.mem_map.1 h
  rcases mem_remember he with rfl | he
  · exact .inl rfl
  · exact .inr (List.mem_map.2 ⟨e, he, rfl⟩)

namespace Replacer

variable {r : Replacer α} {gradient : Bool} {p : Progress α} {index : Nat} {n : Node α}
  {nodes : List (Node α)} {s : Journaled (Decisions α)} {ops : Set (Operator α)}

theorem follows_of_chosenRule {d : Decided α}
    (hrule : r.chosenRule d.op d.args d.gradient = .ok d.rule)
    (houtcome : d.record.outcome = outcomeOf d.rule) : d.Follows r where
  outcome := houtcome
  substituted rule := by
    rw [← firstAdmitting_eq_some_iff, ← Except.ok.injEq]
    exact ⟨fun h => hrule.trans h, fun h => hrule.symm.trans h⟩
  fallback := by
    rw [← firstAdmitting_eq_none_iff, ← Except.ok.injEq]
    exact ⟨fun h => hrule.trans h, fun h => hrule.symm.trans h⟩

theorem op_of_decision? {d : Decided α} (h : r.decision? gradient p index n s = some d) :
    n.op = .highLevel d.op := by
  unfold decision? at h
  split at h
  · next hop _ =>
    simp only at h
    split at h
    · exact Option.some.inj h ▸ hop
    · exact nomatch h
  · exact nomatch h

/-- The decision about a call, and what is remembered after the call. -/
theorem decision?_step (hs : s.state.Right r ops) (hn : n.op.operator ∈ ops) (gradient : Bool)
    (p : Progress α) (index : Nat) :
    (r.decision? gradient p index n s = none ∧
        ((r.step gradient p index n).apply s).2.state = s.state) ∨
      ∃ d, r.decision? gradient p index n s = some d ∧ d.Follows r ∧
        d.record.cached = (s.state.find? d.key).isSome ∧
          ((r.step gradient p index n).apply s).2.state = s.state.remember d.key d.rule := by
  unfold decision?
  cases hop : n.op with
  | kernel o =>
    rw [apply_step_kernel hop]
    exact .inl ⟨rfl, rfl⟩
  | highLevel o =>
    have ho : o ∈ ops := by rwa [hop] at hn
    cases hoperands : p.operandsFor n with
    | error e =>
      rw [apply_step_of_operandsFor_error hop hoperands]
      exact .inl ⟨rfl, rfl⟩
    | ok operands =>
      have hargs : (⟨o.qualifiedName, operands, n.attrs⟩ : Operands Symbol).op =
        o.qualifiedName := rfl
      obtain ⟨journal, hdispatch⟩ := apply_dispatch hs ho hargs index gradient
      rw [apply_step_highLevel hop hoperands]
      simp only [hdispatch]
      cases hrule : r.chosenRule o ⟨o.qualifiedName, operands, n.attrs⟩ gradient with
      | error e => exact .inl ⟨rfl, rfl⟩
      | ok rule => exact .inr ⟨_, rfl, follows_of_chosenRule hrule rfl, rfl, rfl⟩

theorem nodeDecisions_cons (r : Replacer α) (gradient : Bool) (p : Progress α) (index : Nat)
    (n : Node α) (nodes : List (Node α)) (s : Journaled (Decisions α)) :
    r.nodeDecisions gradient p index (n :: nodes) s =
      (r.decision? gradient p index n s).toList ++
        match (r.step gradient p index n).apply s with
        | (.ok (p', _), s') => r.nodeDecisions gradient p' (index + 1) nodes s'
        | (.error _, _) => [] := rfl

/-- Decisions are about calls of the source. -/
theorem op_of_mem_nodeDecisions {d : Decided α}
    (h : d ∈ r.nodeDecisions gradient p index nodes s) : ∃ n ∈ nodes, n.op = .highLevel d.op := by
  induction nodes generalizing p index s with
  | nil => exact nomatch h
  | cons n nodes ih =>
    rw [nodeDecisions_cons] at h
    rcases List.mem_append.1 h with h | h
    · exact ⟨n, List.mem_cons_self, op_of_decision? (Option.mem_toList.1 h)⟩
    · split at h
      · obtain ⟨m, hm, hop⟩ := ih h
        exact ⟨m, List.mem_cons_of_mem n hm, hop⟩
      · exact nomatch h

/-- Only decisions under keys that are known are marked as remembered. -/
def MarkedWhenKnown : List DispatchKey → List (Decided α) → Prop
  | _, [] => True
  | known, d :: ds => (d.record.cached = true → d.key ∈ known) ∧
      MarkedWhenKnown (d.key :: known) ds

theorem MarkedWhenKnown.mono : ∀ {known known' : List DispatchKey} {ds : List (Decided α)},
    MarkedWhenKnown known ds → known ⊆ known' → MarkedWhenKnown known' ds
  | _, _, [], _, _ => trivial
  | _, _, d :: _, ⟨hd, hds⟩, hsub =>
    ⟨fun hcached => hsub (hd hcached), hds.mono (List.cons_subset_cons d.key hsub)⟩

theorem MarkedWhenKnown.append : ∀ {known : List DispatchKey} {ds es : List (Decided α)},
    MarkedWhenKnown known ds → MarkedWhenKnown (ds.map Decided.key ++ known) es →
      MarkedWhenKnown known (ds ++ es)
  | _, [], _, _, hes => hes
  | known, d :: ds, es, ⟨hd, hds⟩, hes => by
    refine ⟨hd, hds.append (hes.mono ?_)⟩
    intro key hkey
    simp only [List.map_cons, List.cons_append, List.mem_cons, List.mem_append] at hkey ⊢
    rcases hkey with rfl | hkey | hkey
    · exact .inr (.inl rfl)
    · exact .inl hkey
    · exact .inr (.inr hkey)

/-- A marked decision comes after one under the same key, or the key was known at the start. -/
theorem MarkedWhenKnown.mem_or_exists {d : Decided α} {later : List (Decided α)} :
    ∀ {known : List DispatchKey} {earlier : List (Decided α)},
      MarkedWhenKnown known (earlier ++ d :: later) → d.record.cached = true →
        d.key ∈ known ∨ ∃ d' ∈ earlier, d'.key = d.key
  | _, [], h, hcached => .inl (h.1 hcached)
  | known, e :: earlier, h, hcached => by
    rcases mem_or_exists h.2 hcached with hmem | ⟨d', hd', hkey⟩
    · rcases List.mem_cons.1 hmem with hkey | hmem
      · exact .inr ⟨e, List.mem_cons_self, hkey.symm⟩
      · exact .inl hmem
    · exact .inr ⟨d', List.mem_cons_of_mem e hd', hkey⟩

/-- What is known of decisions that take a replacer from one state to another: they follow the
rules, they are marked as remembered only if their keys are known, and what is remembered
afterwards is under keys that are known then. -/
structure Decides (r : Replacer α) (known : List DispatchKey) (ds : List (Decided α))
    (s' : Journaled (Decisions α)) : Prop where
  follows : ∀ d ∈ ds, d.Follows r
  marked : MarkedWhenKnown known ds
  keys : s'.state.keys ⊆ ds.map Decided.key ++ known

theorem decides_nil {known : List DispatchKey} (h : s.state.keys ⊆ known) : r.Decides known [] s :=
  ⟨nofun, trivial, h⟩

theorem Decides.append {known : List DispatchKey} {ds es : List (Decided α)}
    {s s' : Journaled (Decisions α)} (h : r.Decides known ds s)
    (h' : r.Decides (ds.map Decided.key ++ known) es s') : r.Decides known (ds ++ es) s' where
  follows d hd := by
    rcases List.mem_append.1 hd with hd | hd
    · exact h.follows d hd
    · exact h'.follows d hd
  marked := h.marked.append h'.marked
  keys key hkey := by
    have hmem := h'.keys hkey
    simp only [List.map_append, List.mem_append] at hmem ⊢
    rcases hmem with hmem | hmem | hmem
    · exact .inl (.inr hmem)
    · exact .inl (.inl hmem)
    · exact .inr hmem

theorem decides_step (hs : s.state.Right r ops) (hn : n.op.operator ∈ ops)
    {known : List DispatchKey} (hknown : s.state.keys ⊆ known) (gradient : Bool) (p : Progress α)
    (index : Nat) : r.Decides known (r.decision? gradient p index n s).toList
      ((r.step gradient p index n).apply s).2 := by
  rcases decision?_step hs hn gradient p index with ⟨hd, hstate⟩ | ⟨d, hd, hfollows, hcached, hstate⟩
  · rw [hd]
    exact decides_nil (hstate ▸ hknown)
  · rw [hd]
    refine ⟨?_, ⟨?_, trivial⟩, ?_⟩
    · intro d' hd'
      obtain rfl := List.mem_singleton.1 hd'
      exact hfollows
    · intro hmark
      exact hknown (Decisions.mem_keys_of_find? (hcached ▸ hmark))
    · intro key hkey
      rw [hstate] at hkey
      rcases Decisions.mem_keys_remember hkey with rfl | hkey
      · exact List.mem_cons_self
      · exact List.mem_cons_of_mem d.key (hknown hkey)

theorem decides_steps (hr : r.TypeDirected) (hids : Set.InjOn Operator.id ops)
    (hs : s.state.Right r ops) (hnodes : ∀ n ∈ nodes, n.op.operator ∈ ops)
    {known : List DispatchKey} (hknown : s.state.keys ⊆ known) (gradient : Bool) (p : Progress α)
    (index : Nat) : r.Decides known (r.nodeDecisions gradient p index nodes s)
      ((r.steps gradient p index nodes).apply s).2 := by
  induction nodes generalizing p index s known with
  | nil => exact decides_nil hknown
  | cons n nodes ih =>
    obtain ⟨hn, hnodes⟩ := List.forall_mem_cons.1 hnodes
    have hfirst := decides_step hs hn hknown gradient p index
    have hright := right_step hr hids hs hn gradient p index
    rw [nodeDecisions_cons, apply_steps_cons]
    rcases hstep : (r.step gradient p index n).apply s with ⟨e | ⟨p', fragment⟩, s'⟩
    · rw [hstep] at hfirst
      simp only [List.append_nil]
      exact hfirst
    · rw [hstep] at hfirst hright
      exact hfirst.append (ih hright hnodes hfirst.keys p' (index + 1))

/-- A call that succeeds is reported as it was decided. -/
theorem report_step (hs : s.state.Right r ops) (hn : n.op.operator ∈ ops) {p' : Progress α}
    {fragment : Fragment α} {s' : Journaled (Decisions α)}
    (hstep : (r.step gradient p index n).apply s = (.ok (p', fragment), s')) :
    p'.report = p.report ++ (r.decision? gradient p index n s).toList.map (·.record) ∧
      (r.decision? gradient p index n s).toList.map (fun d => (d.record.node, d.op)) =
        (n.highLevelAt? index).toList := by
  unfold decision? Node.highLevelAt?
  cases hop : n.op with
  | kernel o =>
    rw [apply_step_kernel hop] at hstep
    obtain ⟨-, -, _, _, t, -, -, -, rfl⟩ := kernelStep_eq_ok_iff.1 (Prod.mk.inj hstep).1
    exact ⟨(List.append_nil p.report).symm, rfl⟩
  | highLevel o =>
    have ho : o ∈ ops := by rwa [hop] at hn
    cases hoperands : p.operandsFor n with
    | error e =>
      rw [apply_step_of_operandsFor_error hop hoperands] at hstep
      exact nomatch (Prod.mk.inj hstep).1
    | ok operands =>
      have hargs : (⟨o.qualifiedName, operands, n.attrs⟩ : Operands Symbol).op =
        o.qualifiedName := rfl
      obtain ⟨journal, hdispatch⟩ := apply_dispatch hs ho hargs index gradient
      rw [apply_step_highLevel hop hoperands] at hstep
      simp only [hdispatch] at hstep ⊢
      cases hrule : r.chosenRule o ⟨o.qualifiedName, operands, n.attrs⟩ gradient with
      | error e =>
        rw [hrule] at hstep
        exact nomatch (Prod.mk.inj hstep).1
      | ok rule =>
        rw [hrule] at hstep
        obtain ⟨_, p₁, -, -, rfl⟩ := decidedStep_eq_ok_iff.1 (Prod.mk.inj hstep).1
        exact ⟨rfl, rfl⟩

/-- Every high-level call of a source is decided about once, in order, and reported as it was
decided. -/
theorem report_steps (hr : r.TypeDirected) (hids : Set.InjOn Operator.id ops)
    (hs : s.state.Right r ops) (hnodes : ∀ n ∈ nodes, n.op.operator ∈ ops) {p' : Progress α}
    {fragments : List (Fragment α)} {s' : Journaled (Decisions α)}
    (hsteps : (r.steps gradient p index nodes).apply s = (.ok (p', fragments), s')) :
    p'.report = p.report ++ (r.nodeDecisions gradient p index nodes s).map (·.record) ∧
      (r.nodeDecisions gradient p index nodes s).map (fun d => (d.record.node, d.op)) =
        (nodes.zipIdx index).filterMap fun (n, index) => n.highLevelAt? index := by
  induction nodes generalizing p index s fragments with
  | nil =>
    obtain ⟨rfl, rfl⟩ := Prod.mk.inj (Except.ok.inj (Prod.mk.inj hsteps).1)
    exact ⟨(List.append_nil p.report).symm, rfl⟩
  | cons n nodes ih =>
    obtain ⟨hn, hnodes⟩ := List.forall_mem_cons.1 hnodes
    have hright := right_step hr hids hs hn gradient p index
    rw [apply_steps_cons] at hsteps
    rw [nodeDecisions_cons]
    rcases hstep : (r.step gradient p index n).apply s with ⟨e | ⟨p₁, fragment⟩, s₁⟩
    · rw [hstep] at hsteps
      exact nomatch (Prod.mk.inj hsteps).1
    · rw [hstep] at hsteps hright
      obtain ⟨hreport, hcall⟩ := report_step hs hn hstep
      obtain ⟨⟨p₂, more⟩, hrest, heq⟩ := map_eq_ok_iff.1 (Prod.mk.inj hsteps).1
      obtain ⟨rfl, -⟩ := Prod.mk.inj heq
      obtain ⟨hreport', hcalls⟩ := ih hright hnodes (Prod.ext hrest (Prod.mk.inj hsteps).2)
      refine ⟨?_, ?_⟩
      · rw [hreport', hreport, List.map_append, List.append_assoc]
      · rw [List.map_append, hcall, hcalls, List.zipIdx_cons, List.filterMap_cons]
        simp only
        cases n.highLevelAt? index with
        | none => rfl
        | some call => rfl

section Answers

variable [Scalar α]

theorem state_answer_of_start {q : Request α} {p : Progress α}
    (hstart : Progress.start q.id q.source = .ok p) (s : Journaled (Decisions α)) :
    ((r.answer q).apply s).2.state =
      ((r.steps q.gradient p 0 q.source.nodes).apply s).2.state := by
  rw [answer_eq]
  simp only [Act.apply_bind, Act.apply_lift, hstart]
  rcases (r.steps q.gradient p 0 q.source.nodes).apply s with ⟨e | ⟨p', fragments⟩, s'⟩
  · rfl
  · simp only
    cases conclude q p' fragments with
    | error e => rfl
    | ok trace => rfl

omit [Scalar α] in
theorem op_of_mem_decisions {q : Request α} {d : Decided α} (h : d ∈ r.decisions q s) :
    ∃ n ∈ q.source.nodes, n.op = .highLevel d.op := by
  unfold decisions at h
  split at h
  · exact op_of_mem_nodeDecisions h
  · exact nomatch h

theorem decides_answer (hr : r.TypeDirected) (hids : Set.InjOn Operator.id ops)
    (hs : s.state.Right r ops) {q : Request α} (hq : ∀ n ∈ q.source.nodes, n.op.operator ∈ ops)
    {known : List DispatchKey} (hknown : s.state.keys ⊆ known) :
    r.Decides known (r.decisions q s) ((r.answer q).apply s).2 := by
  unfold decisions
  cases hstart : Progress.start q.id q.source with
  | error e =>
    refine decides_nil ?_
    rw [answer_eq]
    simp only [Act.apply_bind, Act.apply_lift, hstart]
    exact hknown
  | ok p =>
    have h := decides_steps hr hids hs hq hknown q.gradient p 0
    refine ⟨h.follows, h.marked, ?_⟩
    rw [state_answer_of_start hstart]
    exact h.keys

variable (r)

/-- The state of a replacer after requests, whatever has become of them. -/
def after (history : List (Request α)) : Journaled (Decisions α) :=
  history.foldl (fun s q => ((r.answer q).apply s).2) r.start

/-- The decisions that are made for requests one after the other. -/
def decisionsFrom : Journaled (Decisions α) → List (Request α) → List (Decided α)
  | _, [] => []
  | s, q :: history => r.decisions q s ++ decisionsFrom ((r.answer q).apply s).2 history

variable {r}

theorem decides_from (hr : r.TypeDirected) (hids : Set.InjOn Operator.id ops)
    {history : List (Request α)}
    (hhistory : ∀ q ∈ history, ∀ n ∈ q.source.nodes, n.op.operator ∈ ops)
    (hs : s.state.Right r ops) {known : List DispatchKey} (hknown : s.state.keys ⊆ known) :
    r.Decides known (r.decisionsFrom s history)
        (history.foldl (fun s q => ((r.answer q).apply s).2) s) ∧
      (history.foldl (fun s q => ((r.answer q).apply s).2) s).state.Right r ops := by
  induction history generalizing s known with
  | nil => exact ⟨decides_nil hknown, hs⟩
  | cons q history ih =>
    obtain ⟨hq, hhistory⟩ := List.forall_mem_cons.1 hhistory
    have hfirst := decides_answer hr hids hs hq hknown
    obtain ⟨hrest, hright⟩ := ih hhistory (plain_answer hr hids hs hq).2 hfirst.keys
    exact ⟨hfirst.append hrest, hright⟩

theorem report_answer (hr : r.TypeDirected) (hids : Set.InjOn Operator.id ops)
    (hs : s.state.Right r ops) {q : Request α} (hq : ∀ n ∈ q.source.nodes, n.op.operator ∈ ops)
    {replaced : Replaced α} (h : ((r.answer q).apply s).1 = .ok replaced) :
    replaced.report = (r.decisions q s).map (·.record) ∧
      (r.decisions q s).map (fun d => (d.record.node, d.op)) = q.source.highLevelCalls := by
  rw [answer_eq] at h
  unfold decisions
  simp only [Act.apply_bind, Act.apply_lift] at h
  cases hstart : Progress.start q.id q.source with
  | error e =>
    rw [hstart] at h
    exact nomatch h
  | ok p =>
    rw [hstart] at h
    simp only at h
    rcases hsteps : (r.steps q.gradient p 0 q.source.nodes).apply s with
      ⟨e | ⟨p', fragments⟩, s'⟩
    · rw [hsteps] at h
      exact nomatch h
    · rw [hsteps] at h
      simp only at h
      cases hconclude : conclude q p' fragments with
      | error e =>
        rw [hconclude] at h
        exact nomatch h
      | ok trace =>
        rw [hconclude] at h
        obtain rfl : ⟨trace, p'.report⟩ = replaced := Except.ok.inj h
        obtain ⟨hreport, hcalls⟩ := report_steps hr hids hs hq hsteps
        rw [report_start hstart] at hreport
        exact ⟨hreport, hcalls⟩

/-- After any history the next answer is that of a replacer that remembers nothing. Every decision
is the one that the rules lead to when they are tried in order, only what was decided before is
marked as remembered, and an answer reports the decisions about all high-level calls. -/
theorem answer_after (hr : r.TypeDirected) (hids : Set.InjOn Operator.id ops)
    (history : List (Request α)) (q : Request α)
    (hops : ∀ q' ∈ q :: history, ∀ n ∈ q'.source.nodes, n.op.operator ∈ ops) :
    ((r.answer q).apply (r.after history)).1.map Replaced.plain =
        ((r.forgetful.answer q).apply r.forgetful.start).1.map Replaced.plain ∧
      (∀ d ∈ r.decisions q (r.after history), d.Follows r) ∧
      (∀ earlier d later, r.decisions q (r.after history) = earlier ++ d :: later →
        d.record.cached = true →
          ∃ d' ∈ r.decisionsFrom r.start history ++ earlier, d'.key = d.key) ∧
      ∀ replaced, ((r.answer q).apply (r.after history)).1 = .ok replaced →
        replaced.report = (r.decisions q (r.after history)).map (·.record) ∧
          (r.decisions q (r.after history)).map (fun d => (d.record.node, d.op)) =
            q.source.highLevelCalls := by
  obtain ⟨hq, hhistory⟩ := List.forall_mem_cons.1 hops
  have hstart : r.start.state.Right r ops := Decisions.right_empty _
  have hkeys : r.start.state.keys ⊆ [] := List.Subset.refl []
  obtain ⟨hbefore, hright⟩ : r.Decides [] (r.decisionsFrom r.start history) (r.after history) ∧
      (r.after history).state.Right r ops := decides_from hr hids hhistory hstart hkeys
  have hnow := decides_answer hr hids hright hq hbefore.keys
  refine ⟨?_, hnow.follows, ?_, fun replaced h => report_answer hr hids hright hq h⟩
  · rw [(plain_answer hr hids hright hq).1]
    have hempty : r.forgetful.start.state.Right r.forgetful ops := Decisions.right_empty _
    have hforgetful : r.forgetful.TypeDirected := hr
    rw [(plain_answer hforgetful hids hempty hq).1, plainAnswer_forgetful]
  · intro earlier d later heq hcached
    have hmarked := hnow.marked
    rw [heq, List.append_nil] at hmarked
    rcases hmarked.mem_or_exists hcached with hmem | ⟨d', hd', hkey⟩
    · obtain ⟨d', hd', hkey⟩ := List.mem_map.1 hmem
      exact ⟨d', List.mem_append_left earlier hd', hkey⟩
    · exact ⟨d', List.mem_append_right _ hd', hkey⟩

end Answers

/-- A replacer that remembers one decision and calls `core::add` as a kernel. -/
def ofAdd : Replacer Float32 := ⟨.ofKernels [Core.add], ⟨none, 1⟩⟩

/-- Asks for a forward program that doubles its input. -/
def askDoubling (id : Nat) : Request Float32 := ⟨false, ⟨id⟩, doubling⟩

theorem operator_askDoubling : ∀ q ∈ [askDoubling 2, askDoubling 1], ∀ n ∈ q.source.nodes,
    n.op.operator ∈ ({Core.add} : Set (Operator Float32)) := by
  intro q hq n hn
  have hsource : q.source = doubling := by
    rcases List.mem_cons.1 hq with rfl | hq
    · rfl
    · rw [List.mem_singleton.1 hq]
      rfl
  rw [hsource] at hn
  rw [List.mem_singleton.1 hn]
  rfl

/-- Asked for a second time, the replacer remembers its decision, and the answer is the same. -/
theorem answer_after_doubling :
    ((ofAdd.answer (askDoubling 2)).apply (ofAdd.after [askDoubling 1])).1.map Replaced.plain =
        ((ofAdd.forgetful.answer (askDoubling 2)).apply ofAdd.forgetful.start).1.map
          Replaced.plain ∧
      ∃ d, ofAdd.decisions (askDoubling 2) (ofAdd.after [askDoubling 1]) = [d] ∧
        d.Follows ofAdd ∧ d.record.cached = true ∧
          ∃ d' ∈ ofAdd.decisionsFrom ofAdd.start [askDoubling 1], d'.key = d.key := by
  have hids : Set.InjOn Operator.id ({Core.add} : Set (Operator Float32)) := Set.injOn_singleton _ _
  obtain ⟨hsame, hfollows, hcached, -⟩ := answer_after (typeDirected_ofKernels _ _ : ofAdd.TypeDirected)
    hids [askDoubling 1] (askDoubling 2) operator_askDoubling
  have hdecisions : ∃ d, ofAdd.decisions (askDoubling 2) (ofAdd.after [askDoubling 1]) = [d] ∧
      d.record.cached = true := ⟨_, rfl, rfl⟩
  obtain ⟨d, hd, hmark⟩ := hdecisions
  refine ⟨hsame, d, hd, hfollows d (hd ▸ List.mem_singleton_self d), hmark, ?_⟩
  obtain ⟨d', hd', hkey⟩ := hcached [] d [] hd hmark
  rw [List.append_nil] at hd'
  exact ⟨d', hd', hkey⟩

end Replacer

end TraceSubstitution
