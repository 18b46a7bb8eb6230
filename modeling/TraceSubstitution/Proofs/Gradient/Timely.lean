import TraceSubstitution.Proofs.Gradient.Discipline
import TraceSubstitution.Proofs.Trace.Recorded

/-!
# Timely gradient transforms

A joint program runs its forward part before any gradient is there. What depends
on a gradient has no value in the forward part, and what another call has left
behind in its fragment may have none when a fragment is replayed.

A gradient transform is timely if it goes by this: what it returns, and what it
asks the gradients of, has a value in the forward part; what its calls read and
what it contributes has a value in the forward part or depends on a gradient that
it has asked for itself. Nothing keeps a transform from being late. Disciplined
transforms are timely, so the ones of addition, of attention and of the fused
executor are.
-/

namespace TraceSubstitution

variable {α : Type}

/-- The symbol has a value, or it depends on a gradient that the open capture has handed out. -/
def Tracer.Offers (t : Tracer α) (s : Symbol) : Prop :=
  s.id ∈ t.known ∨ ∃ c, t.capture = some c ∧ s.id ∈ c.tainted

/-- A run of the recipe with the given tracer uses nothing before it has a value. -/
def Recipe.Timely : Recipe α (List Symbol) → Tracer α → Prop
  | done result, t => ∀ outputs, result = .ok outputs → ∀ s ∈ outputs, s.id ∈ t.known
  | read next, t => (next t).Timely t
  | call op operands attrs next, t =>
    (∀ results t', (Tracer.call op operands attrs).apply t = (.ok results, t') →
      (∀ s, some s ∈ operands → t.Offers s) ∧ (next (.ok results)).Timely t') ∧
    ∀ e, (Tracer.call op operands attrs).apply t = (.error (.error e), t) →
      (next (.error e)).Timely t
  | incoming primal next, t =>
    (∀ gradient t', (Tracer.incomingGradient primal).apply t = (.ok gradient, t') →
      primal.id ∈ t.known ∧ (next (.ok gradient)).Timely t') ∧
    ∀ e, (Tracer.incomingGradient primal).apply t = (.error (.error e), t) →
      (next (.error e)).Timely t
  | accumulate target contribution next, t =>
    (∀ t', (Tracer.accumulateGradient target contribution).apply t = (.ok (), t') →
      t.Offers contribution ∧ (next (.ok ())).Timely t') ∧
    ∀ e, (Tracer.accumulateGradient target contribution).apply t = (.error (.error e), t) →
      (next (.error e)).Timely t

/-- The runs of a transform on operands with values, with a capture that has just been opened, are
timely. -/
def Transform.Timely (T : Transform α) : Prop :=
  ∀ args t, t.capture = some .empty → (∀ s, some s ∈ args.tensors → s.id ∈ t.known) →
    (T args).Timely t

namespace Tracer

variable {t t' : Tracer α} {c : Capture α} {op : NodeOp α} {operands : List (Option Symbol)}

theorem Extends.known_subset (h : t.Extends t') : t.known ⊆ t'.known := by
  obtain ⟨more, hmore, -⟩ := h.nodes
  unfold known
  rw [h.inputs, hmore, List.flatMap_append]
  exact List.append_subset.2 ⟨List.subset_append_left _ _,
    fun id hid => List.mem_append_right _ (List.mem_append_left _ hid)⟩

theorem Offers.mono {s : Symbol} (h : t.Offers s) (hc : t.capture = some c)
    (hknown : t.known ⊆ t'.known) {c' : Capture α} (hc' : t'.capture = some c')
    (htainted : c.tainted ⊆ c'.tainted) : t'.Offers s := by
  rcases h with hs | ⟨c₀, hc₀, hs⟩
  · exact .inl (hknown hs)
  · obtain rfl : c₀ = c := Option.some.inj (hc₀.symm.trans hc)
    exact .inr ⟨c', hc', htainted hs⟩

theorem dependsOnGradient_eq (hc : t.capture = some c) {bound : Attrs} {outputs : List SymbolId} :
    c.dependsOnGradient ⟨op, operands.map (·.map Symbol.id), bound, outputs⟩ =
      t.diverts operands := by
  unfold Capture.dependsOnGradient diverts
  rw [hc, List.any_map]
  refine congrArg (operands.any ·) (funext fun x => ?_)
  cases x with
  | none => rfl
  | some s => rfl

/-- What a call does while a capture is open. -/
theorem call_of_capture (hc : t.capture = some c) {attrs : Attrs} {results : List Symbol}
    (h : (call op operands attrs).apply t = (.ok results, t')) : ∃ n : Node α, ∃ types,
      n.inputs = operands.map (·.map Symbol.id) ∧ results = t.fresh types ∧
        n.outputs = (t.fresh types).map Symbol.id ∧
          t' = if t.diverts operands then { t.declare types with capture := some (c.divert n) }
            else { t.declare types with nodes := t.nodes ++ [n] } := by
  obtain ⟨bound, types, -, -, -, rfl, rfl⟩ := call_eq_ok_iff.1 h
  refine ⟨⟨op, operands.map (·.map Symbol.id), bound, (t.fresh types).map Symbol.id⟩, types, rfl,
    rfl, rfl, ?_⟩
  have hcapture : (t.declare types).capture = some c := hc
  unfold append
  simp only [hcapture, dependsOnGradient_eq hc]
  rfl

/-- The results of a call have values if it is recorded, and depend on a gradient otherwise. -/
theorem offers_of_call (hc : t.capture = some c) {attrs : Attrs} {results : List Symbol}
    (h : (call op operands attrs).apply t = (.ok results, t')) :
    ∃ c', t'.capture = some c' ∧ c'.placeholders = c.placeholders ∧ c.tainted ⊆ c'.tainted ∧
      (∀ s ∈ results, t'.Offers s) ∧
        (t.diverts operands = false → ∀ s ∈ results, s.id ∈ t'.known) := by
  obtain ⟨n, types, -, rfl, houtputs, rfl⟩ := call_of_capture hc h
  have hmem : ∀ s ∈ t.fresh types, s.id ∈ n.outputs := fun s hs =>
    houtputs ▸ List.mem_map_of_mem hs
  cases t.diverts operands with
  | true =>
    exact ⟨c.divert n, rfl, rfl, List.subset_append_right _ _,
      fun s hs => .inr ⟨_, rfl, List.mem_append_left _ (hmem s hs)⟩, nofun⟩
  | false =>
    have hknown : ∀ s ∈ t.fresh types,
        s.id ∈ known { t.declare types with nodes := t.nodes ++ [n] } := by
      intro s hs
      refine List.mem_append_right _ ?_
      rw [List.flatMap_append, List.flatMap_singleton]
      exact List.mem_append_right _ (hmem s hs)
    exact ⟨c, hc, rfl, List.Subset.refl _, fun s hs => .inl (hknown s hs), fun _ => hknown⟩

/-- A gradient that is asked for depends on a gradient. -/
theorem offers_of_incomingGradient (hc : t.capture = some c)
    (hplaceholders : ∀ x ∈ c.placeholders, x.1 ∈ c.tainted) {primal gradient : Symbol}
    (h : (incomingGradient primal).apply t = (.ok gradient, t')) :
    ∃ c', t'.capture = some c' ∧ c.tainted ⊆ c'.tainted ∧ t'.Offers gradient ∧
      ∀ x ∈ c'.placeholders, x.1 ∈ c'.tainted := by
  obtain ⟨-, c₀, hc₀, hcase⟩ := incomingGradient_eq_ok_iff.1 h
  obtain rfl : c₀ = c := Option.some.inj (hc₀.symm.trans hc)
  rcases hcase with ⟨existing, hexisting, hsymbol, rfl⟩ | ⟨-, rfl, rfl⟩
  · refine ⟨c₀, hc, List.Subset.refl _, .inr ⟨c₀, hc, ?_⟩, hplaceholders⟩
    unfold symbol at hsymbol
    obtain ⟨type, -, rfl⟩ := map_eq_ok_iff.1 hsymbol
    obtain ⟨x, hx, rfl⟩ := Option.map_eq_some_iff.1 hexisting
    exact hplaceholders x (List.mem_of_find?_eq_some hx)
  · refine ⟨_, rfl, List.subset_cons_self _ _, .inr ⟨_, rfl, List.mem_cons_self⟩, fun x hx => ?_⟩
    rcases List.mem_append.1 hx with hx | hx
    · exact List.mem_cons_of_mem _ (hplaceholders x hx)
    · rw [List.mem_singleton.1 hx]
      exact List.mem_cons_self

end Tracer

namespace Recipe

/-- What a recipe may use can be used without waiting: operands and what has been recorded have
values, and what has been obtained has one or depends on a gradient that has been asked for. -/
structure Scope.Offered (k : Scope) (t : Tracer α) (c : Capture α) : Prop where
  capture : t.capture = some c
  placeholders : ∀ x ∈ c.placeholders, x.1 ∈ c.tainted
  operands : ∀ s ∈ k.operands, s.id ∈ t.known
  recorded : ∀ s ∈ k.recorded, s.id ∈ t.known
  obtained : ∀ s ∈ k.obtained, t.Offers s

namespace Scope.Offered

variable {k : Scope} {t t' : Tracer α} {c : Capture α}

theorem has (h : k.Offered t c) {s : Symbol} (hs : k.Has s) : t.Offers s :=
  hs.elim (fun hs => .inl (h.operands s hs)) (h.obtained s)

/-- The tracer diverts exactly the calls whose results the scope does not record. -/
theorem call (h : k.Offered t c) {op : NodeOp α} {operands : List (Option Symbol)} {attrs : Attrs}
    {results : List Symbol} (hcall : (Tracer.call op operands attrs).apply t = (.ok results, t')) :
    ∃ c', (k.afterCall (t.diverts operands) results).Offered t' c' := by
  have hknown := (Tracer.extends_of_call hcall).known_subset
  obtain ⟨c', hc', hsame, htainted, hoffers, hresults⟩ := Tracer.offers_of_call h.capture hcall
  refine ⟨c', hc', hsame ▸ fun x hx => htainted (h.placeholders x hx),
    fun s hs => hknown (h.operands s hs), fun s hs => ?_, fun s hs => ?_⟩
  · cases hdiverts : t.diverts operands with
    | true =>
      rw [hdiverts] at hs
      exact hknown (h.recorded s hs)
    | false =>
      rw [hdiverts] at hs
      exact (List.mem_append.1 hs).elim (fun hs => hknown (h.recorded s hs)) (hresults hdiverts s)
  · rcases List.mem_append.1 hs with hs | hs
    · exact (h.obtained s hs).mono h.capture hknown hc' htainted
    · exact hoffers s hs

theorem incoming (h : k.Offered t c) {primal gradient : Symbol}
    (hincoming : (Tracer.incomingGradient primal).apply t = (.ok gradient, t')) :
    ∃ c', (k.afterIncoming gradient).Offered t' c' := by
  have hknown := (Tracer.extends_of_incomingGradient hincoming).known_subset
  obtain ⟨c', hc', htainted, hoffers, hplaceholders⟩ :=
    Tracer.offers_of_incomingGradient h.capture h.placeholders hincoming
  refine ⟨c', hc', hplaceholders, fun s hs => hknown (h.operands s hs),
    fun s hs => hknown (h.recorded s hs), fun s hs => ?_⟩
  rcases List.mem_append.1 hs with hs | hs
  · exact (h.obtained s hs).mono h.capture hknown hc' htainted
  · exact List.mem_singleton.1 hs ▸ hoffers

theorem accumulate (h : k.Offered t c) {target contribution : Symbol}
    (haccumulate : (Tracer.accumulateGradient target contribution).apply t = (.ok (), t')) :
    ∃ c', k.Offered t' c' := by
  obtain ⟨-, -, -, c₀, hc₀, rfl⟩ := Tracer.accumulateGradient_eq_ok_iff.1 haccumulate
  obtain rfl : c₀ = c := Option.some.inj (hc₀.symm.trans h.capture)
  exact ⟨_, rfl, h.placeholders, h.operands, h.recorded, fun s hs =>
    (h.obtained s hs).mono h.capture (List.Subset.refl _) rfl (List.Subset.refl _)⟩

end Scope.Offered

/-- A disciplined run is timely. -/
theorem Disciplined.timely {r : Recipe α (List Symbol)} {k : Scope} {t : Tracer α} {c : Capture α}
    (hr : r.Disciplined k t) (h : k.Offered t c) : r.Timely t := by
  induction r generalizing k t c with
  | done result =>
    exact fun outputs hresult s hs =>
      (hr outputs hresult s hs).elim (h.operands s) (h.recorded s)
  | read next ih => exact ih t hr h
  | call op operands attrs next ih =>
    obtain ⟨hused, hok, herror⟩ := hr
    refine ⟨fun results t' hcall => ⟨fun s hs => h.has (hused s hs), ?_⟩,
      fun e he => ih _ (herror e he) h⟩
    obtain ⟨c', h'⟩ := h.call hcall
    exact ih _ (hok results t' hcall) h'
  | incoming primal next ih =>
    obtain ⟨hprimal, hok, herror⟩ := hr
    refine ⟨fun gradient t' hincoming => ⟨h.recorded primal hprimal, ?_⟩,
      fun e he => ih _ (herror e he) h⟩
    obtain ⟨c', h'⟩ := h.incoming hincoming
    exact ih _ (hok gradient t' hincoming) h'
  | accumulate target contribution next ih =>
    obtain ⟨-, hcontribution, hok, herror⟩ := hr
    refine ⟨fun t' haccumulate => ⟨h.has hcontribution, ?_⟩, fun e he => ih _ (herror e he) h⟩
    obtain ⟨c', h'⟩ := h.accumulate haccumulate
    exact ih _ (hok t' haccumulate) h'

end Recipe

theorem Transform.Disciplined.timely {T : Transform α} (h : T.Disciplined) : T.Timely :=
  fun args t ht hknown => (h args t ht).timely
    ⟨ht, nofun, fun s hs => hknown s (List.reduceOption_mem_iff.1 hs), nofun, nofun⟩

end TraceSubstitution
