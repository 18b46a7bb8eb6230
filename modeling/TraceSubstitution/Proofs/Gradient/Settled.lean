import Mathlib.Data.List.Perm.Basic
import TraceSubstitution.Proofs.Gradient.Assembly

/-!
# Backward parts that stay closed

If the fragments of a joint program are closed, the backward part that is built from
them is closed as well: what is bound as a gradient is known, a fragment is replayed
when all that it reads is known, and its placeholders are renamed to known symbols.
-/

namespace TraceSubstitution

variable {α : Type}

/-- The backward part of a program under way: it is closed, what is bound as a gradient is known,
and the given other symbols are set aside. -/
structure Backward.Settled (others : List SymbolId) (b : Backward α) : Prop where
  capture : b.1.capture = none
  closed : Node.Closed b.1.inputs b.1.nodes
  distinct : b.1.Distinct others
  bound : ∀ id g, b.2.get? id = some g → g.id ∈ b.1.known

theorem Tracer.known_replay (t : Tracer α) (n : Node α) (m : SymbolMap SymbolId) :
    (t.replay n m).known = t.known ++ n.outputs := by
  simp [known, replay]

namespace Backward.Settled

variable {others : List SymbolId} {b b' : Backward α}

theorem record (h : Settled others b) (type : TensorType) {n : Node α}
    (hinputs : ∀ id, some id ∈ n.inputs → id ∈ b.1.known) (houtputs : n.outputs = [b.1.nextId]) :
    Settled others ({ b.1 with symbols := b.1.symbols ++ [type], nodes := b.1.nodes ++ [n] }, b.2) ∧
      Tracer.known { b.1 with symbols := b.1.symbols ++ [type], nodes := b.1.nodes ++ [n] } =
        b.1.known ++ [b.1.nextId] := by
  have hknown : Tracer.known
      { b.1 with symbols := b.1.symbols ++ [type], nodes := b.1.nodes ++ [n] } =
        b.1.known ++ [b.1.nextId] := by
    simp [Tracer.known, houtputs]
  refine ⟨⟨h.capture, ?_, ?_, fun id g hg => ?_⟩, hknown⟩
  · exact (Node.closed_append _ _ _).2 ⟨h.closed, Node.closed_singleton.2 hinputs⟩
  · refine h.distinct.extend rfl ?_
    rw [hknown, List.append_assoc, List.append_assoc]
    exact List.perm_append_comm.append_left _
  · rw [hknown]
    exact List.mem_append_left _ (h.bound id g hg)

theorem insert (h : Settled others b) {primal : SymbolId} {g : Symbol} (hg : g.id ∈ b.1.known) :
    Settled others (b.1, b.2.insert primal g) := by
  refine ⟨h.capture, h.closed, h.distinct, fun id g' hg' => ?_⟩
  rw [SymbolMap.get?_insert] at hg'
  split at hg'
  · exact Option.some.inj hg' ▸ hg
  · exact h.bound id g' hg'

variable [Scalar α]

theorem accumulate (h : Settled others b) {primal : SymbolId} {x : Symbol} (hx : x.id ∈ b.1.known)
    (hrun : (GradientBinding.accumulate primal x).apply b = (.ok (), b')) :
    Settled others b' ∧ b.1.known ⊆ b'.1.known := by
  rcases GradientBinding.accumulate_eq_ok h.capture hrun with
    ⟨-, rfl⟩ | ⟨existing, total, hget, htotal, rfl⟩
  · exact ⟨h.insert hx, List.Subset.refl _⟩
  · have hinputs : ∀ id, some id ∈ [some existing.id, some x.id] → id ∈ b.1.known := by
      intro id hid
      rcases List.mem_pair.1 hid with heq | heq
      · exact Option.some.inj heq ▸ h.bound primal existing hget
      · exact Option.some.inj heq ▸ hx
    have houtputs : (Node.add existing.id x.id total.id : Node α).outputs = [b.1.nextId] :=
      congrArg (fun id => [id]) htotal
    obtain ⟨hrecord, hknown⟩ := h.record total.type hinputs houtputs
    refine ⟨hrecord.insert ?_, hknown ▸ List.subset_append_left _ _⟩
    rw [hknown, htotal]
    exact List.mem_append_right _ (List.mem_singleton_self _)

/-- The gradient of a known symbol is known, be it bound or zeros. -/
theorem gradient (h : Settled others b) {id : SymbolId} (hid : id ∈ b.1.known) {g : Symbol}
    (hcase : (b.2.get? id = some g ∧ b' = b) ∨
      (b.2.get? id = none ∧ g.id = b.1.nextId ∧ b' = ({ b.1 with
        symbols := b.1.symbols ++ [g.type]
        nodes := b.1.nodes ++ [.zerosLike id g.id] }, b.2))) :
    Settled others b' ∧ b.1.known ⊆ b'.1.known ∧ g.id ∈ b'.1.known := by
  rcases hcase with ⟨hget, rfl⟩ | ⟨-, hg, rfl⟩
  · exact ⟨h, List.Subset.refl _, h.bound id g hget⟩
  · have hinputs : ∀ id', some id' ∈ [some id] → id' ∈ b.1.known :=
      fun id' hid' => Option.some.inj (List.mem_singleton.1 hid') ▸ hid
    have houtputs : (Node.zerosLike id g.id : Node α).outputs = [b.1.nextId] :=
      congrArg (fun id => [id]) hg
    obtain ⟨hrecord, hknown⟩ := h.record g.type hinputs houtputs
    refine ⟨hrecord, hknown ▸ List.subset_append_left _ _, ?_⟩
    rw [hknown, hg]
    exact List.mem_append_right _ (List.mem_singleton_self _)

/-- Placeholders are renamed to known symbols, and nothing else is renamed. -/
theorem resolve {placeholders : List (SymbolId × SymbolId)} (h : Settled others b)
    {m m' : SymbolMap SymbolId} (hknown : ∀ x ∈ placeholders, x.2 ∈ b.1.known)
    (hm : ∀ id g, m.get? id = some g → g ∈ b.1.known)
    (hrun : (placeholders.foldlM Backward.resolveOne m).apply b = (.ok m', b')) :
    Settled others b' ∧ b.1.known ⊆ b'.1.known ∧
      (∀ id g, m'.get? id = some g → g ∈ b'.1.known) ∧
      ∀ id, (m'.get? id).isSome = true ↔
        (m.get? id).isSome = true ∨ id ∈ placeholders.map Prod.fst := by
  induction placeholders generalizing m b with
  | nil =>
    obtain ⟨hresult, rfl⟩ := Prod.mk.inj hrun
    obtain rfl := Except.ok.inj hresult
    exact ⟨h, List.Subset.refl _, hm, fun id => by simp⟩
  | cons x placeholders ih =>
    rw [List.foldlM_cons] at hrun
    obtain ⟨m₁, b₁, hone, hrest⟩ := Act.apply_bind_eq_ok_iff.1 hrun
    obtain ⟨hx, hknown⟩ := List.forall_mem_cons.1 hknown
    obtain ⟨g, rfl, hcase⟩ := resolveOne_eq_ok h.capture hone
    obtain ⟨h₁, hsub₁, hg⟩ := h.gradient hx hcase
    have hm₁ : ∀ id g', (m.insert x.1 g.id).get? id = some g' → g' ∈ b₁.1.known := by
      intro id g' hg'
      rw [SymbolMap.get?_insert] at hg'
      split at hg'
      · exact Option.some.inj hg' ▸ hg
      · exact hsub₁ (hm id g' hg')
    obtain ⟨h', hsub, hall, hdomain⟩ := ih h₁ (fun y hy => hsub₁ (hknown y hy)) hm₁ hrest
    refine ⟨h', List.Subset.trans hsub₁ hsub, hall, fun id => ?_⟩
    rw [hdomain, SymbolMap.get?_insert, List.map_cons, List.mem_cons]
    by_cases heq : id = x.1
    · simp [heq]
    · simp [heq]

omit [Scalar α] in
/-- A call of a fragment: its outputs, which were set aside, get their values. -/
theorem replayNode {n : Node α} (h : Settled (n.outputs ++ others) b) {m : SymbolMap SymbolId}
    (hreads : ∀ id, some id ∈ n.inputs → m.rename id ∈ b.1.known) :
    Settled others (b.1.replay n m, b.2) := by
  have hknown := b.1.known_replay n m
  refine ⟨h.capture, ?_, ?_, fun id g hg => ?_⟩
  · refine (Node.closed_append _ _ _).2 ⟨h.closed, Node.closed_singleton.2 fun id hid => ?_⟩
    obtain ⟨x, hx, hsome⟩ := List.mem_map.1 hid
    obtain ⟨id', rfl, rfl⟩ := Option.map_eq_some_iff.1 hsome
    exact hreads id' hx
  · refine h.distinct.extend (List.append_nil _).symm ?_
    rw [hknown, Tracer.fresh_nil, List.map_nil, List.append_nil, List.append_assoc]
  · rw [hknown]
    exact List.mem_append_left _ (h.bound id g hg)

theorem replayStep {s : BackwardStep α} (h : Settled (s.outputs ++ others) b)
    {m : SymbolMap SymbolId} (hreads : ∀ id ∈ s.reads, m.rename id ∈ b.1.known)
    (hrun : (Backward.replayStep m s).apply b = (.ok (), b')) :
    Settled others b' ∧ b.1.known ++ s.outputs ⊆ b'.1.known := by
  rcases replayStep_eq_ok hrun with ⟨n, rfl, rfl⟩ | ⟨target, contribution, x, rfl, hx, haccumulate⟩
  · refine ⟨h.replayNode fun id hid => hreads id (List.reduceOption_mem_iff.2 hid), ?_⟩
    rw [Tracer.known_replay]
    exact List.Subset.refl _
  · have hknown : x.id ∈ b.1.known := hx ▸ hreads contribution (List.mem_singleton_self _)
    obtain ⟨h', hsub⟩ := h.accumulate hknown haccumulate
    exact ⟨h', List.append_subset.2 ⟨hsub, List.nil_subset _⟩⟩

/-- The parts of a fragment in order; `known` is what they may read at first. -/
theorem replaySteps {steps : List (BackwardStep α)} {known : List SymbolId}
    (h : Settled (steps.flatMap BackwardStep.outputs ++ others) b) {m : SymbolMap SymbolId}
    (hclosed : BackwardStep.Closed known steps) (hknown : ∀ id ∈ known, m.rename id ∈ b.1.known)
    (hm : ∀ id ∈ steps.flatMap BackwardStep.outputs, m.get? id = none)
    (hrun : (steps.forM (Backward.replayStep m)).apply b = (.ok (), b')) :
    Settled others b' ∧ b.1.known ⊆ b'.1.known := by
  induction steps generalizing known b with
  | nil =>
    obtain rfl : b = b' := (Prod.mk.inj hrun).2
    exact ⟨h, List.Subset.refl _⟩
  | cons s steps ih =>
    obtain ⟨_, b₁, hstep, hrest⟩ := Act.apply_bind_eq_ok_iff.1 hrun
    rw [List.flatMap_cons, List.append_assoc] at h
    rw [List.flatMap_cons] at hm
    obtain ⟨hreads, hclosed⟩ := hclosed
    obtain ⟨h₁, hsub₁⟩ := h.replayStep (fun id hid => hknown id (hreads hid)) hstep
    obtain ⟨hbefore, houtputs⟩ := List.append_subset.1 hsub₁
    -- Outputs of the fragment keep their numbers: only placeholders are renamed.
    have hknown₁ : ∀ id ∈ known ++ s.outputs, m.rename id ∈ b₁.1.known := by
      intro id hid
      rcases List.mem_append.1 hid with hid | hid
      · exact hbefore (hknown id hid)
      · rw [SymbolMap.rename, hm id (List.mem_append_left _ hid)]
        exact houtputs hid
    obtain ⟨h', hsub⟩ := ih h₁ hclosed hknown₁
      (fun id hid => hm id (List.mem_append_right _ hid)) hrest
    exact ⟨h', List.Subset.trans hbefore hsub⟩

/-- A fragment that is closed over what is known; its placeholders stay set aside. -/
theorem replay {f : Fragment α} (h : Settled (f.diverted ++ others) b) (hclosed : f.Closed b.1.known)
    (hsub : f.placeholderIds ⊆ others) (hrun : (Backward.replay f).apply b = (.ok (), b')) :
    Settled others b' ∧ b.1.known ⊆ b'.1.known := by
  unfold Backward.replay at hrun
  obtain ⟨m, b₁, hresolve, hsteps⟩ := Act.apply_bind_eq_ok_iff.1 hrun
  rw [resolve_eq] at hresolve
  have hempty : ∀ id g, SymbolMap.empty.get? id = some g → g ∈ b.1.known := by
    intro id g hg
    rw [SymbolMap.get?_empty] at hg
    exact nomatch hg
  obtain ⟨h₁, hknown₁, hall, hdomain⟩ := h.resolve
    (fun x hx => hclosed.primals (List.mem_map_of_mem hx)) hempty hresolve
  have hnone : ∀ id, id ∉ f.placeholderIds → m.get? id = none := by
    intro id hid
    rw [← Option.not_isSome_iff_eq_none, hdomain]
    exact not_or_intro Bool.false_ne_true hid
  -- No symbol is set aside twice, so what a call returns is no placeholder.
  have hapart : ∀ id ∈ f.diverted, id ∉ f.placeholderIds := by
    intro id hid hmem
    have hdisjoint := (List.nodup_append.1 (List.nodup_append.1 h.distinct.nodup).2.1).2.2
    exact hdisjoint id hid id (hsub hmem) rfl
  have hreads : ∀ id ∈ b.1.known ++ f.placeholderIds, m.rename id ∈ b₁.1.known := by
    intro id hid
    by_cases hplaceholder : id ∈ f.placeholderIds
    · obtain ⟨g, hg⟩ := Option.isSome_iff_exists.1 ((hdomain id).2 (.inr hplaceholder))
      rw [SymbolMap.rename, hg]
      exact hall id g hg
    · rw [SymbolMap.rename, hnone id hplaceholder]
      exact hknown₁ ((List.mem_append.1 hid).resolve_right hplaceholder)
  obtain ⟨h', hknown⟩ := h₁.replaySteps hclosed.steps hreads
    (fun id hid => hnone id (hapart id hid)) hsteps
  exact ⟨h', List.Subset.trans hknown₁ hknown⟩

/-- Fragments that are closed over what is known, one after the other. -/
theorem replayAll {fragments : List (Fragment α)}
    (h : Settled (fragments.flatMap Fragment.diverted ++ others) b)
    (hclosed : ∀ f ∈ fragments, f.Closed b.1.known)
    (hsub : ∀ f ∈ fragments, f.placeholderIds ⊆ others)
    (hrun : (fragments.forM Backward.replay).apply b = (.ok (), b')) :
    Settled others b' ∧ b.1.known ⊆ b'.1.known := by
  induction fragments generalizing b with
  | nil =>
    obtain rfl : b = b' := (Prod.mk.inj hrun).2
    exact ⟨h, List.Subset.refl _⟩
  | cons f fragments ih =>
    obtain ⟨_, b₁, hone, hrest⟩ := Act.apply_bind_eq_ok_iff.1 hrun
    rw [List.flatMap_cons, List.append_assoc] at h
    obtain ⟨hf, hclosed⟩ := List.forall_mem_cons.1 hclosed
    obtain ⟨hfsub, hsub⟩ := List.forall_mem_cons.1 hsub
    obtain ⟨h₁, hknown₁⟩ :=
      h.replay hf (fun id hid => List.mem_append_right _ (hfsub hid)) hone
    obtain ⟨h', hknown⟩ := ih h₁ (fun g hg => (hclosed g hg).mono hknown₁) hsub hrest
    exact ⟨h', List.Subset.trans hknown₁ hknown⟩

theorem addCotangent (h : Settled others b) {output : Symbol}
    (hrun : (Backward.addCotangent output).apply b = (.ok (), b')) :
    Settled others b' ∧ b.1.known ⊆ b'.1.known := by
  have hknown : b.1.known ⊆ (b.1.input output.type).2.known := by
    intro id hid
    rcases List.mem_append.1 hid with hid | hid
    · exact List.mem_append_left _ (List.mem_append_left _ hid)
    · exact List.mem_append_right _ hid
  have hinput : Settled others ((b.1.input output.type).2, b.2) := by
    refine ⟨h.capture, h.closed.mono (List.subset_append_left _ _), ?_,
      fun id g hg => hknown (h.bound id g hg)⟩
    have hsymbols : (b.1.input output.type).2.symbols = b.1.symbols ++ [output.type] := rfl
    refine h.distinct.extend hsymbols ?_
    simp only [Tracer.known, Tracer.input, Tracer.declare, List.append_assoc]
    refine .append_left _ ?_
    rw [← List.append_assoc (b.1.nodes.flatMap (·.outputs))]
    exact List.perm_append_comm
  have hmem : b.1.nextId ∈ (b.1.input output.type).2.known :=
    List.mem_append_left _ (List.mem_append_right _ (List.mem_singleton_self _))
  obtain ⟨h', hsub⟩ := hinput.accumulate hmem hrun
  exact ⟨h', List.Subset.trans hknown hsub⟩

theorem addCotangents {outputs : List Symbol} (h : Settled others b)
    (hrun : (outputs.forM Backward.addCotangent).apply b = (.ok (), b')) :
    Settled others b' ∧ b.1.known ⊆ b'.1.known := by
  induction outputs generalizing b with
  | nil =>
    obtain rfl : b = b' := (Prod.mk.inj hrun).2
    exact ⟨h, List.Subset.refl _⟩
  | cons output outputs ih =>
    obtain ⟨_, b₁, hone, hrest⟩ := Act.apply_bind_eq_ok_iff.1 hrun
    obtain ⟨h₁, hknown₁⟩ := h.addCotangent hone
    obtain ⟨h', hknown⟩ := ih h₁ hrest
    exact ⟨h', List.Subset.trans hknown₁ hknown⟩

theorem gradientsOrZeros {inputs gradients : List Symbol} (h : Settled others b)
    (hknown : ∀ s ∈ inputs, s.id ∈ b.1.known)
    (hrun : (inputs.mapM fun input => Backward.gradientOrZeros input.id (pure input)).apply b =
      (.ok gradients, b')) :
    Settled others b' ∧ b.1.known ⊆ b'.1.known ∧ ∀ g ∈ gradients, g.id ∈ b'.1.known := by
  induction inputs generalizing b gradients with
  | nil =>
    obtain ⟨hgradients, rfl⟩ := Prod.mk.inj hrun
    obtain rfl := Except.ok.inj hgradients
    exact ⟨h, List.Subset.refl _, nofun⟩
  | cons input inputs ih =>
    rw [List.mapM_cons] at hrun
    obtain ⟨g, b₁, hone, hrest⟩ := Act.apply_bind_eq_ok_iff.1 hrun
    obtain ⟨gs, b₂, hall, hpure⟩ := Act.apply_bind_eq_ok_iff.1 hrest
    obtain rfl : b₂ = b' := (Prod.mk.inj hpure).2
    obtain rfl : g :: gs = gradients := Except.ok.inj (Prod.mk.inj hpure).1
    obtain ⟨hinput, hknown⟩ := List.forall_mem_cons.1 hknown
    obtain ⟨h₁, hknown₁, hg⟩ := h.gradient hinput (gradientOrZeros_eq_ok h.capture
      (fun x t hx => ⟨(Except.ok.inj (Prod.mk.inj hx).1 ▸ rfl), (Prod.mk.inj hx).2.symm⟩) hone)
    obtain ⟨h', hsub, hgs⟩ := ih h₁ (fun s hs => hknown₁ (hknown s hs)) hall
    exact ⟨h', List.Subset.trans hknown₁ hsub, List.forall_mem_cons.2 ⟨hsub hg, hgs⟩⟩

end Backward.Settled

theorem Fragment.perm_own (fragments : List (Fragment α)) :
    (fragments.reverse.flatMap diverted ++ fragments.flatMap placeholderIds).Perm
      (fragments.flatMap own) :=
  (((List.reverse_perm fragments).flatMap_right diverted).append_right _).trans
    (List.flatMap_append_perm fragments diverted placeholderIds)

theorem Replacer.LeaveAll.nodup {p p' : Progress α} {others : List SymbolId}
    {fragments : List (Fragment α)} (h : LeaveAll p p' others fragments) :
    ∀ f ∈ fragments, f.placeholderIds.Nodup := by
  intro f hf
  have hown := (List.nodup_append.1 (List.nodup_append.1 h.settled.distinct.nodup).2.1).2.1
  exact (List.nodup_append.1 ((List.nodup_flatMap.1 hown).1 f hf)).2.1

/-- The backward part that is built from closed fragments: the program is closed when it is done,
and the placeholders are still set aside. -/
theorem Backward.settled_of_build [Scalar α] {p₀ p : Progress α} {fragments : List (Fragment α)}
    (h : Replacer.LeaveAll p₀ p [] fragments) {outputs inputs gradients : List Symbol}
    (houtputs : ∀ s ∈ outputs, s.id ∈ p.tracer.known)
    (hinputs : ∀ s ∈ inputs, s.id ∈ p.tracer.known) {t' : Tracer α} {grads : GradientBinding}
    (hbuild : (build outputs inputs fragments).apply (p.tracer, .empty) =
      (.ok gradients, (t', grads))) :
    Settled (fragments.flatMap Fragment.placeholderIds) (t', grads) ∧
      ∀ s ∈ outputs ++ gradients, s.id ∈ t'.known := by
  have hstart : Settled (fragments.reverse.flatMap Fragment.diverted ++
      fragments.flatMap Fragment.placeholderIds) (p.tracer, .empty) :=
    ⟨h.settled.capture, h.settled.closed, h.settled.distinct.perm (Fragment.perm_own fragments),
      nofun⟩
  have hmem : ∀ f ∈ fragments.reverse, f ∈ fragments := fun f hf => List.mem_reverse.1 hf
  obtain ⟨_, b₁, hcotangents, hrest⟩ := Act.apply_bind_eq_ok_iff.1 hbuild
  obtain ⟨_, b₂, hreplay, hgradients⟩ := Act.apply_bind_eq_ok_iff.1 hrest
  obtain ⟨h₁, hknown₁⟩ := hstart.addCotangents hcotangents
  obtain ⟨h₂, hknown₂⟩ := h₁.replayAll (fun f hf => (h.closed f (hmem f hf)).mono hknown₁)
    (fun f hf id hid => List.mem_flatMap.2 ⟨f, hmem f hf, hid⟩) hreplay
  have hforward : p.tracer.known ⊆ b₂.1.known := List.Subset.trans hknown₁ hknown₂
  obtain ⟨h₃, hknown₃, hall⟩ := h₂.gradientsOrZeros (fun s hs => hforward (hinputs s hs)) hgradients
  refine ⟨h₃, fun s hs => ?_⟩
  rcases List.mem_append.1 hs with hs | hs
  · exact hknown₃ (hforward (houtputs s hs))
  · exact hall s hs

end TraceSubstitution
