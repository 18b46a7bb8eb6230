import TraceSubstitution.Proofs.Gradient.Sum

/-!
# Replaying fragments

A fragment is replayed with its placeholders renamed to the gradients they stand
for. All placeholders are resolved first, so the gradient that takes the place of a
placeholder is the sum of the contributions that have been made before the fragment
is replayed (`Fragment.Renamed`), and its own contributions come too late for it.
-/

namespace TraceSubstitution

/-- What a symbol is called under a renaming. -/
def SymbolMap.rename (m : SymbolMap SymbolId) (id : SymbolId) : SymbolId := (m.get? id).getD id

variable {α : Type}

/-- A call with its operands renamed. -/
def Node.renamed (m : SymbolMap SymbolId) (n : Node α) : Node α :=
  { n with inputs := n.inputs.map (·.map m.rename) }

namespace BackwardStep

/-- The call that a part of a fragment becomes, if it is one. -/
def calls (m : SymbolMap SymbolId) : BackwardStep α → List (Node α)
  | node n => [n.renamed m]
  | accumulate _ _ => []

/-- The contribution that a part of a fragment becomes, if it is one. -/
def contributions (m : SymbolMap SymbolId) : BackwardStep α → List Contribution
  | node _ => []
  | accumulate target contribution => [⟨target, m.rename contribution⟩]

end BackwardStep

namespace Fragment

/-- The calls of a fragment that is replayed. -/
def calls (m : SymbolMap SymbolId) (f : Fragment α) : List (Node α) :=
  f.steps.flatMap (BackwardStep.calls m)

/-- The contributions of a fragment that is replayed. -/
def contributions (m : SymbolMap SymbolId) (f : Fragment α) : List Contribution :=
  f.steps.flatMap (BackwardStep.contributions m)

theorem map_target_contributions (m : SymbolMap SymbolId) (f : Fragment α) :
    (f.contributions m).map Contribution.target = f.targets := by
  unfold contributions targets
  rw [List.map_flatMap]
  refine congrArg (f.steps.flatMap ·) (funext fun s => ?_)
  cases s with
  | node n => rfl
  | accumulate target contribution => rfl

/-- Every placeholder is renamed to the gradient that it stands for, and nothing else is renamed. -/
structure Renamed [Scalar α] (nodes : List (Node α)) (contributions : List Contribution)
    (f : Fragment α) (m : SymbolMap SymbolId) : Prop where
  placeholders : ∀ x ∈ f.placeholders, ∃ g, m.get? x.1 = some g ∧
    Node.Gradient nodes contributions x.2 g
  others : ∀ id, id ∉ f.placeholderIds → m.get? id = none

section

variable [Scalar α] {nodes nodes' : List (Node α)} {contributions more : List Contribution}
  {f : Fragment α} {m : SymbolMap SymbolId}

/-- Contributions to other gradients make no difference. -/
theorem Renamed.mono (h : f.Renamed nodes contributions m) (hsub : nodes ⊆ nodes')
    (hmore : ∀ id ∈ f.primals, id ∉ more.map Contribution.target) :
    f.Renamed nodes' (contributions ++ more) m := by
  refine ⟨fun x hx => ?_, h.others⟩
  obtain ⟨g, hg, hgradient⟩ := h.placeholders x hx
  exact ⟨g, hg, hgradient.mono hsub (hmore x.2 (List.mem_map_of_mem hx))⟩

theorem Renamed.of_subset (h : f.Renamed nodes contributions m) (hsub : nodes ⊆ nodes') :
    f.Renamed nodes' contributions m := by
  refine ⟨fun x hx => ?_, h.others⟩
  obtain ⟨g, hg, hgradient⟩ := h.placeholders x hx
  exact ⟨g, hg, hgradient.of_subset hsub⟩

end

end Fragment

/-- A fragment with the renaming under which it is replayed. -/
abbrev Replayed (α : Type) : Type := Fragment α × SymbolMap SymbolId

theorem Backward.apply_onTracer {β : Type} (x : Act (Tracer α) β) (b : Backward α) :
    (onTracer x).apply b = ((x.apply b.1).1, (x.apply b.1).2, b.2) := rfl

variable [Scalar α]

namespace Backward

variable {forward : Tracer α} {l : Ledger α} {b b' : Backward α}

/-- A gradient that is asked for is the one that is bound, or zeros are recorded. -/
theorem exists_of_gradientOrZeros {id : SymbolId} {primal : Act (Tracer α) Symbol} {g : Symbol}
    (hrun : (gradientOrZeros id primal).apply b = (.ok g, b')) :
    (b.2.get? id = some g ∧ b' = b) ∨
      (b.2.get? id = none ∧ ∃ x t t', primal.apply b.1 = (.ok x, t) ∧
        (Core.traceZerosLike x).apply t = (.ok g, t') ∧ b' = (t', b.2)) := by
  unfold Backward.gradientOrZeros at hrun
  rw [Act.apply_bind, Act.apply_get] at hrun
  simp only at hrun
  cases hget : b.2.get? id with
  | some gradient =>
    rw [hget] at hrun
    obtain ⟨hg, rfl⟩ := Prod.mk.inj hrun
    exact .inl ⟨congrArg some (Except.ok.inj hg), rfl⟩
  | none =>
    rw [hget, apply_onTracer] at hrun
    obtain ⟨hzeros, rfl⟩ := Prod.mk.inj hrun
    have happly : (do Core.traceZerosLike (← primal) : Act (Tracer α) Symbol).apply b.1 =
        (.ok g, ((do Core.traceZerosLike (← primal) : Act (Tracer α) Symbol).apply b.1).2) :=
      Prod.ext hzeros rfl
    obtain ⟨x, t, hx, htrace⟩ := Act.apply_bind_eq_ok_iff.1 happly
    exact .inr ⟨rfl, x, t, _, hx, htrace, rfl⟩

/-- A gradient that is asked for is the one that is bound, or zeros that are made by a call. -/
theorem gradientOrZeros_eq_ok (hb : b.1.capture = none) {id : SymbolId}
    {primal : Act (Tracer α) Symbol}
    (hprimal : ∀ x t, primal.apply b.1 = (.ok x, t) → x.id = id ∧ t = b.1) {g : Symbol}
    (hrun : (gradientOrZeros id primal).apply b = (.ok g, b')) :
    (b.2.get? id = some g ∧ b' = b) ∨
      (b.2.get? id = none ∧ g.id = b.1.nextId ∧ b' = ({ b.1 with
        symbols := b.1.symbols ++ [g.type]
        nodes := b.1.nodes ++ [.zerosLike id g.id] }, b.2)) := by
  refine (exists_of_gradientOrZeros hrun).imp_right fun ⟨hget, x, t, t', hx, htrace, hb'⟩ => ?_
  obtain ⟨rfl, rfl⟩ := hprimal x t hx
  obtain ⟨hg, htracer⟩ := Tracer.single_call_eq_ok rfl hb htrace
  exact ⟨hget, hg, hb'.trans (congrArg (·, b.2) htracer)⟩

/-- What takes the place of one placeholder. -/
def resolveOne (m : SymbolMap SymbolId) (x : SymbolId × SymbolId) :
    Act (Backward α) (SymbolMap SymbolId) := do
  let gradient ← gradientOrZeros x.2 (do Act.lift ((← get).symbol x.2))
  return m.insert x.1 gradient.id

theorem resolve_eq (placeholders : List (SymbolId × SymbolId)) :
    (resolve placeholders : Act (Backward α) (SymbolMap SymbolId)) =
      placeholders.foldlM resolveOne .empty := rfl

/-- A placeholder is renamed to the gradient that is bound, or to zeros. -/
theorem resolveOne_eq_ok (hb : b.1.capture = none) {m m' : SymbolMap SymbolId}
    {x : SymbolId × SymbolId} (hrun : (resolveOne m x).apply b = (.ok m', b')) :
    ∃ g : Symbol, m' = m.insert x.1 g.id ∧
      ((b.2.get? x.2 = some g ∧ b' = b) ∨
        (b.2.get? x.2 = none ∧ g.id = b.1.nextId ∧ b' = ({ b.1 with
          symbols := b.1.symbols ++ [g.type]
          nodes := b.1.nodes ++ [.zerosLike x.2 g.id] }, b.2))) := by
  obtain ⟨g, b₁, hgradient, hpure⟩ := Act.apply_bind_eq_ok_iff.1 hrun
  obtain rfl : b₁ = b' := (Prod.mk.inj hpure).2
  obtain rfl : m.insert x.1 g.id = m' := Except.ok.inj (Prod.mk.inj hpure).1
  refine ⟨g, rfl, gradientOrZeros_eq_ok hb (fun y t hy => ?_) hgradient⟩
  obtain ⟨hsymbol, ht⟩ := Prod.mk.inj hy
  unfold Tracer.symbol at hsymbol
  obtain ⟨type, -, rfl⟩ := map_eq_ok_iff.1 hsymbol
  exact ⟨rfl, ht.symm⟩

/-- A part of a fragment is a call with its operands renamed, or a contribution that is renamed. -/
theorem replayStep_eq_ok {m : SymbolMap SymbolId} {s : BackwardStep α}
    (hrun : (replayStep m s).apply b = (.ok (), b')) :
    (∃ n, s = .node n ∧ b' = (b.1.replay n m, b.2)) ∨
      ∃ target contribution, ∃ x : Symbol, s = .accumulate target contribution ∧
        x.id = m.rename contribution ∧
        (GradientBinding.accumulate target x).apply b = (.ok (), b') := by
  cases s with
  | node n => exact .inl ⟨n, rfl, (Prod.mk.inj hrun).2.symm⟩
  | accumulate target contribution =>
    obtain ⟨x, b₁, hx, haccumulate⟩ := Act.apply_bind_eq_ok_iff.1 hrun
    rw [apply_onTracer] at hx
    obtain ⟨hsymbol, rfl⟩ := Prod.mk.inj hx
    refine .inr ⟨target, contribution, x, rfl, ?_, haccumulate⟩
    change b.1.symbol (m.rename contribution) = .ok x at hsymbol
    unfold Tracer.symbol at hsymbol
    obtain ⟨type, -, rfl⟩ := map_eq_ok_iff.1 hsymbol
    rfl

/-- The gradient that is bound is the sum of the contributions so far, and zeros stand for none. -/
theorem Keeps.gradient (h : Keeps forward l b) {id : SymbolId} {g : Symbol}
    (hcase : (b.2.get? id = some g ∧ b' = b) ∨
      (b.2.get? id = none ∧ g.id = b.1.nextId ∧ b' = ({ b.1 with
        symbols := b.1.symbols ++ [g.type]
        nodes := b.1.nodes ++ [.zerosLike id g.id] }, b.2))) :
    Keeps forward l b' ∧ b.1.nodes ⊆ b'.1.nodes ∧
      Node.Gradient b'.1.nodes l.contributions id g.id := by
  rcases hcase with ⟨hget, rfl⟩ | ⟨hget, -, rfl⟩
  · exact ⟨h, List.Subset.refl _, Node.gradient_of_sum (h.bound id g hget)⟩
  · refine ⟨h.record g.type (.inr ⟨_, _, rfl⟩), List.subset_append_left _ _, ?_⟩
    unfold Node.Gradient
    rw [if_pos (h.unbound id hget)]
    exact List.mem_append_right _ (List.mem_singleton_self _)

/-- All placeholders are resolved before anything else is done. -/
theorem Keeps.resolve {placeholders : List (SymbolId × SymbolId)} (h : Keeps forward l b)
    {m m' : SymbolMap SymbolId} (hnodup : (placeholders.map Prod.fst).Nodup)
    (hrun : (placeholders.foldlM Backward.resolveOne m).apply b = (.ok m', b')) :
    Keeps forward l b' ∧ b.1.nodes ⊆ b'.1.nodes ∧
      (∀ x ∈ placeholders, ∃ g, m'.get? x.1 = some g ∧
        Node.Gradient b'.1.nodes l.contributions x.2 g) ∧
      ∀ id, id ∉ placeholders.map Prod.fst → m'.get? id = m.get? id := by
  induction placeholders generalizing m b with
  | nil =>
    obtain ⟨hm, rfl⟩ := Prod.mk.inj hrun
    obtain rfl := Except.ok.inj hm
    exact ⟨h, List.Subset.refl _, nofun, fun _ _ => rfl⟩
  | cons x placeholders ih =>
    rw [List.foldlM_cons] at hrun
    obtain ⟨m₁, b₁, hone, hrest⟩ := Act.apply_bind_eq_ok_iff.1 hrun
    obtain ⟨hnotMem, hnodup⟩ := List.nodup_cons.1 hnodup
    obtain ⟨g, rfl, hcase⟩ := resolveOne_eq_ok h.capture hone
    obtain ⟨h₁, hsub₁, hgradient⟩ := h.gradient hcase
    obtain ⟨h', hsub, hall, hother⟩ := ih h₁ hnodup hrest
    -- Later placeholders are others, so the first one keeps what it is renamed to.
    refine ⟨h', List.Subset.trans hsub₁ hsub, List.forall_mem_cons.2 ⟨⟨g.id, ?_, ?_⟩, hall⟩, ?_⟩
    · rw [hother x.1 hnotMem, SymbolMap.get?_insert, if_pos rfl]
    · exact hgradient.of_subset hsub
    · intro id hid
      obtain ⟨hne, hrest⟩ := List.ne_and_not_mem_of_not_mem_cons hid
      rw [hother id hrest, SymbolMap.get?_insert, if_neg hne]

theorem Keeps.replayStep {s : BackwardStep α} (h : Keeps forward l b) {m : SymbolMap SymbolId}
    (hrun : (replayStep m s).apply b = (.ok (), b')) :
    Keeps forward (l.add (s.contributions m) (s.calls m)) b' ∧ b.1.nodes ⊆ b'.1.nodes := by
  rcases replayStep_eq_ok hrun with ⟨n, rfl, rfl⟩ | ⟨target, contribution, x, rfl, hx, haccumulate⟩
  · obtain ⟨backward, hbackward, hcalls⟩ := h.nodes
    have hsub : b.1.nodes ⊆ (b.1.replay n m).nodes := List.subset_append_left _ _
    refine ⟨⟨h.capture, h.inputs, ⟨backward ++ [n.renamed m], ?_, hcalls.append (.call _ .nil)⟩,
      fun id g hg => ?_, ?_⟩, hsub⟩
    · rw [← List.append_assoc, ← hbackward]
      rfl
    · simpa [Ledger.add, BackwardStep.contributions] using (h.bound id g hg).mono hsub
    · simpa [Ledger.add, BackwardStep.contributions] using h.unbound
  · have hledger : l.add [⟨target, m.rename contribution⟩] [] =
        { l with contributions := l.contributions ++ [⟨target, x.id⟩] } := by
      simp [Ledger.add, hx]
    exact hledger ▸ h.accumulate haccumulate

theorem Keeps.replaySteps {steps : List (BackwardStep α)} (h : Keeps forward l b)
    {m : SymbolMap SymbolId} (hrun : (steps.forM (Backward.replayStep m)).apply b = (.ok (), b')) :
    Keeps forward (l.add (steps.flatMap (BackwardStep.contributions m))
      (steps.flatMap (BackwardStep.calls m))) b' ∧ b.1.nodes ⊆ b'.1.nodes := by
  induction steps generalizing l b with
  | nil =>
    obtain rfl : b = b' := (Prod.mk.inj hrun).2
    exact ⟨by simpa [Ledger.add] using h, List.Subset.refl _⟩
  | cons s steps ih =>
    obtain ⟨_, b₁, hstep, hrest⟩ := Act.apply_bind_eq_ok_iff.1 hrun
    obtain ⟨h₁, hsub₁⟩ := h.replayStep hstep
    obtain ⟨h', hsub⟩ := ih h₁ hrest
    refine ⟨?_, List.Subset.trans hsub₁ hsub⟩
    simpa only [Ledger.add, List.flatMap_cons, List.append_assoc] using h'

/-- A fragment: its placeholders stand for the gradients so far. -/
theorem Keeps.replay {f : Fragment α} (h : Keeps forward l b) (hnodup : f.placeholderIds.Nodup)
    (hrun : (Backward.replay f).apply b = (.ok (), b')) :
    ∃ m, Keeps forward (l.add (f.contributions m) (f.calls m)) b' ∧ b.1.nodes ⊆ b'.1.nodes ∧
      f.Renamed b'.1.nodes l.contributions m := by
  unfold Backward.replay at hrun
  obtain ⟨m, b₁, hresolve, hsteps⟩ := Act.apply_bind_eq_ok_iff.1 hrun
  rw [resolve_eq] at hresolve
  obtain ⟨h₁, hsub₁, hplaceholders, hothers⟩ := h.resolve hnodup hresolve
  obtain ⟨h', hsub⟩ := h₁.replaySteps hsteps
  have hrenamed : f.Renamed b₁.1.nodes l.contributions m := ⟨hplaceholders, hothers⟩
  exact ⟨m, h', List.Subset.trans hsub₁ hsub, hrenamed.of_subset hsub⟩

/-- Fragments in the order in which they are replayed: the placeholders of each one stand for the
sums of the contributions so far and those of the fragments before it. -/
theorem Keeps.replayAll {fragments : List (Fragment α)} (h : Keeps forward l b)
    (hnodup : ∀ f ∈ fragments, f.placeholderIds.Nodup)
    (hrun : (fragments.forM Backward.replay).apply b = (.ok (), b')) :
    ∃ replayed : List (Replayed α), replayed.map Prod.fst = fragments ∧
      Keeps forward (l.add (replayed.flatMap fun x => x.1.contributions x.2)
        (replayed.flatMap fun x => x.1.calls x.2)) b' ∧ b.1.nodes ⊆ b'.1.nodes ∧
      ∀ before x after, replayed = before ++ x :: after → x.1.Renamed b'.1.nodes
        (l.contributions ++ before.flatMap fun x => x.1.contributions x.2) x.2 := by
  induction fragments generalizing l b with
  | nil =>
    obtain rfl : b = b' := (Prod.mk.inj hrun).2
    refine ⟨[], rfl, by simpa [Ledger.add] using h, List.Subset.refl _, fun before x after heq => ?_⟩
    exact absurd heq.symm (List.append_ne_nil_of_right_ne_nil before (List.cons_ne_nil x after))
  | cons f fragments ih =>
    obtain ⟨_, b₁, hone, hrest⟩ := Act.apply_bind_eq_ok_iff.1 hrun
    obtain ⟨hf, hnodup⟩ := List.forall_mem_cons.1 hnodup
    obtain ⟨m, h₁, hsub₁, hrenamed⟩ := h.replay hf hone
    obtain ⟨replayed, hreplayed, h', hsub, hall⟩ := ih h₁ hnodup hrest
    refine ⟨(f, m) :: replayed, congrArg _ hreplayed, ?_, List.Subset.trans hsub₁ hsub,
      fun before x after heq => ?_⟩
    · simpa only [Ledger.add, List.flatMap_cons, List.append_assoc] using h'
    · -- The fragment is the first one, or it is among those after the first one.
      cases before with
      | nil =>
        obtain ⟨rfl, -⟩ := List.cons.inj heq
        rw [List.flatMap_nil, List.append_nil]
        exact hrenamed.of_subset hsub
      | cons y before =>
        obtain ⟨rfl, htail⟩ := List.cons.inj heq
        rw [List.flatMap_cons, ← List.append_assoc]
        exact hall before x after htail

end Backward

end TraceSubstitution
