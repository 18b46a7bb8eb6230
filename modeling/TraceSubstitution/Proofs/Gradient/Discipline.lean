import Mathlib.Data.List.ReduceOption
import TraceSubstitution.Core
import TraceSubstitution.Flash.Executor
import TraceSubstitution.Proofs.Trace.Recording

/-!
# Disciplined gradient transforms

A gradient transform describes the gradient of one call. It is disciplined if in
every run it uses only the operands of that call and symbols that it has obtained
in the run, asks for gradients only of results that its own calls have recorded in
the program, contributes only to gradients of the operands, and returns only
operands and recorded results. The results of a call are recorded if the open
capture does not take the call over.

The gradient transforms of addition, of attention and of the fused executor are
disciplined.
-/

namespace TraceSubstitution

variable {α : Type}

/-- Whether the open capture, if there is one, takes over a call with the given operands. -/
def Tracer.diverts (t : Tracer α) (operands : List (Option Symbol)) : Bool :=
  t.capture.any fun c => operands.any fun x => x.any fun s => c.tainted.contains s.id

namespace Recipe

/-- What a recipe may use at some point of a run. -/
structure Scope where
  /-- The operands of the call whose gradient is described. -/
  operands : List Symbol
  /-- The results of calls and the gradients that the run has obtained. -/
  obtained : List Symbol
  /-- The results of calls that have been recorded in the program. -/
  recorded : List Symbol

namespace Scope

/-- The symbol is an operand or has been obtained. -/
def Has (k : Scope) (s : Symbol) : Prop := s ∈ k.operands ∨ s ∈ k.obtained

/-- What may be used after a call. -/
def afterCall (k : Scope) (diverted : Bool) (results : List Symbol) : Scope where
  operands := k.operands
  obtained := k.obtained ++ results
  recorded := if diverted then k.recorded else k.recorded ++ results

theorem has_afterCall {k : Scope} {s : Symbol} {results : List Symbol} (h : s ∈ results)
    (diverted : Bool) : (k.afterCall diverted results).Has s :=
  .inr (List.mem_append_right k.obtained h)

theorem mem_recorded_afterCall {k : Scope} {s : Symbol} (h : s ∈ k.recorded) (diverted : Bool)
    (results : List Symbol) : s ∈ (k.afterCall diverted results).recorded := by
  unfold afterCall
  cases diverted with
  | true => exact h
  | false => exact List.mem_append_left results h

/-- What may be used after a gradient has been asked for. -/
def afterIncoming (k : Scope) (gradient : Symbol) : Scope :=
  { k with obtained := k.obtained ++ [gradient] }

end Scope

/-- A run of the recipe with the given tracer uses what it may use, and nothing else. -/
def Disciplined : Recipe α (List Symbol) → Scope → Tracer α → Prop
  | done result, k, _ => ∀ outputs, result = .ok outputs →
    ∀ s ∈ outputs, s ∈ k.operands ∨ s ∈ k.recorded
  | read next, k, t => (next t).Disciplined k t
  | call op operands attrs next, k, t => (∀ s, some s ∈ operands → k.Has s) ∧
    (∀ results t', (Tracer.call op operands attrs).apply t = (.ok results, t') →
      (next (.ok results)).Disciplined (k.afterCall (t.diverts operands) results) t') ∧
    ∀ e, (Tracer.call op operands attrs).apply t = (.error (.error e), t) →
      (next (.error e)).Disciplined k t
  | incoming primal next, k, t => primal ∈ k.recorded ∧
    (∀ gradient t', (Tracer.incomingGradient primal).apply t = (.ok gradient, t') →
      (next (.ok gradient)).Disciplined (k.afterIncoming gradient) t') ∧
    ∀ e, (Tracer.incomingGradient primal).apply t = (.error (.error e), t) →
      (next (.error e)).Disciplined k t
  | accumulate target contribution next, k, t => target ∈ k.operands ∧ k.Has contribution ∧
    (∀ t', (Tracer.accumulateGradient target contribution).apply t = (.ok (), t') →
      (next (.ok ())).Disciplined k t') ∧
    ∀ e, (Tracer.accumulateGradient target contribution).apply t = (.error (.error e), t) →
      (next (.error e)).Disciplined k t

end Recipe

/-- The runs of a transform with a capture that has just been opened are disciplined. -/
def Transform.Disciplined (T : Transform α) : Prop :=
  ∀ args t, t.capture = some .empty →
    (T args).Disciplined ⟨args.tensors.reduceOption, [], []⟩ t

namespace Recipe

variable {β : Type} {k : Scope} {t : Tracer α}

/-- A recipe that only reports is disciplined if what follows it is. -/
theorem disciplined_lift_bind {x : Except Failure β} {f : β → Recipe α (List Symbol)}
    (h : ∀ b, x = .ok b → (f b).Disciplined k t) : ((lift x).bind f).Disciplined k t := by
  cases x with
  | error e => exact fun outputs houtputs => nomatch houtputs
  | ok b => exact h b rfl

theorem disciplined_outputsOf_bind {op : NodeOp α} {operands : List (Option Symbol)}
    {attrs : Attrs} {f : List Symbol → Recipe α (List Symbol)}
    (hoperands : ∀ s, some s ∈ operands → k.Has s)
    (h : ∀ results t', (Tracer.call op operands attrs).apply t = (.ok results, t') →
      (f results).Disciplined (k.afterCall (t.diverts operands) results) t') :
    ((outputsOf op operands attrs).bind f).Disciplined k t :=
  ⟨hoperands, h, fun _ _ _ houtputs => nomatch houtputs⟩

theorem disciplined_incomingGradient_bind {primal : Symbol}
    {f : Symbol → Recipe α (List Symbol)} (hprimal : primal ∈ k.recorded)
    (h : ∀ gradient t', (Tracer.incomingGradient primal).apply t = (.ok gradient, t') →
      (f gradient).Disciplined (k.afterIncoming gradient) t') :
    ((incomingGradient primal).bind f).Disciplined k t :=
  ⟨hprimal, h, fun _ _ _ houtputs => nomatch houtputs⟩

theorem disciplined_accumulateGradient_bind {target contribution : Symbol}
    {f : Unit → Recipe α (List Symbol)} (htarget : target ∈ k.operands)
    (hcontribution : k.Has contribution)
    (h : ∀ t', (Tracer.accumulateGradient target contribution).apply t = (.ok (), t') →
      (f ()).Disciplined k t') :
    ((accumulateGradient target contribution).bind f).Disciplined k t :=
  ⟨htarget, hcontribution, h, fun _ _ _ houtputs => nomatch houtputs⟩

theorem disciplined_pure {outputs : List Symbol}
    (h : ∀ s ∈ outputs, s ∈ k.operands ∨ s ∈ k.recorded) :
    (done (.ok outputs) : Recipe α (List Symbol)).Disciplined k t := by
  intro outputs' houtputs
  obtain rfl := Except.ok.inj houtputs
  exact h

/-- A capture that has just been opened takes no call over. -/
theorem diverts_of_empty (h : t.capture = some .empty) (operands : List (Option Symbol)) :
    t.diverts operands = false := by
  simp [Tracer.diverts, h, Capture.empty]

theorem has_of_mem_operands {args : Operands Symbol} {s : Symbol} (h : some s ∈ args.tensors)
    (obtained recorded : List Symbol) :
    Scope.Has ⟨args.tensors.reduceOption, obtained, recorded⟩ s :=
  .inl (List.reduceOption_mem_iff.2 h)

theorem disciplined_accumulateAll_bind :
    ∀ (primals : List (Option Symbol)) (gradients : List Symbol) (t : Tracer α)
      {f : Unit → Recipe α (List Symbol)}, (∀ s, some s ∈ primals → s ∈ k.operands) →
        (∀ s ∈ gradients, k.Has s) → (∀ t', (f ()).Disciplined k t') →
          ((Attention.accumulateAll primals gradients).bind f).Disciplined k t
  | some primal :: primals, g :: gradients, t, f, hprimals, hgradients, hf => by
    obtain ⟨hg, hgradients⟩ := List.forall_mem_cons.1 hgradients
    refine ⟨hprimals primal List.mem_cons_self, hg, fun t' _ => ?_,
      fun _ _ _ houtputs => nomatch houtputs⟩
    exact disciplined_accumulateAll_bind primals gradients t'
      (fun s hs => hprimals s (List.mem_cons_of_mem _ hs)) hgradients hf
  | none :: primals, _ :: gradients, t, f, hprimals, hgradients, hf =>
    disciplined_accumulateAll_bind primals gradients t
      (fun s hs => hprimals s (List.mem_cons_of_mem _ hs))
      (List.forall_mem_cons.1 hgradients).2 hf
  | [], _, t, _, _, _, hf => hf t
  | some _ :: _, [], t, _, _, _, hf => hf t
  | none :: _, [], t, _, _, _, hf => hf t

end Recipe

open Recipe

theorem Core.disciplined_addGradient [Scalar α] : (Core.addGradient : Transform α).Disciplined := by
  intro args t ht
  refine disciplined_lift_bind fun lhs hlhs => disciplined_lift_bind fun rhs hrhs => ?_
  have hl := Operands.mem_of_tensor hlhs
  have hr := Operands.mem_of_tensor hrhs
  refine disciplined_outputsOf_bind ?_ fun results t₁ hcall => ?_
  · intro s hs
    rcases List.mem_pair.1 hs with heq | heq
    · exact has_of_mem_operands (Option.some.inj heq ▸ hl) [] []
    · exact has_of_mem_operands (Option.some.inj heq ▸ hr) [] []
  · rw [diverts_of_empty ht]
    refine disciplined_lift_bind fun out hout => ?_
    obtain rfl := single_eq_ok_iff.1 hout
    have hrecorded : out ∈ [out] := List.mem_singleton_self out
    refine disciplined_incomingGradient_bind hrecorded fun gradient t₂ _ => ?_
    have hgradient : Scope.Has ⟨args.tensors.reduceOption, [out, gradient], [out]⟩ gradient :=
      .inr (List.mem_pair.2 (.inr rfl))
    refine disciplined_accumulateGradient_bind (List.reduceOption_mem_iff.2 hl) hgradient
      fun t₃ _ => ?_
    refine disciplined_accumulateGradient_bind (List.reduceOption_mem_iff.2 hr) hgradient
      fun t₄ _ => ?_
    exact disciplined_pure fun s hs => .inr hs

theorem Attention.disciplined_gradient [Scalar α] :
    (Attention.gradient : Transform α).Disciplined := by
  intro args t ht
  refine disciplined_outputsOf_bind (fun s hs => has_of_mem_operands hs [] [])
    fun results t₁ hcall => ?_
  rw [diverts_of_empty ht]
  refine disciplined_lift_bind fun out hout => ?_
  obtain rfl := single_eq_ok_iff.1 hout
  have hrecorded : out ∈ [out] := List.mem_singleton_self out
  refine disciplined_incomingGradient_bind hrecorded fun gradient t₂ _ => ?_
  refine disciplined_outputsOf_bind ?_ fun gradients t₃ _ => ?_
  · intro s hs
    rcases List.mem_cons.1 hs with heq | hs
    · exact .inr (List.mem_pair.2 (.inr (Option.some.inj heq)))
    · exact has_of_mem_operands hs _ _
  · refine disciplined_accumulateAll_bind args.tensors gradients t₃
      (fun s hs => List.reduceOption_mem_iff.2 hs)
      (fun s hs => Scope.has_afterCall hs _) fun t₄ => disciplined_pure ?_
    exact fun s hs => .inr (Scope.mem_recorded_afterCall hs _ gradients)

/-- What the fused operators need of a call of attention are its operands. -/
theorem Flash.mem_of_call {args : Operands Symbol} {c : Flash.Call}
    (h : Flash.Call.ofOperands args = .ok c) :
    some c.query ∈ args.tensors ∧ some c.key ∈ args.tensors ∧ some c.value ∈ args.tensors := by
  unfold Flash.Call.ofOperands at h
  obtain ⟨query, hquery, h⟩ := bind_eq_ok_iff.1 h
  obtain ⟨width, -, h⟩ := bind_eq_ok_iff.1 h
  obtain ⟨scale, -, h⟩ := bind_eq_ok_iff.1 h
  obtain ⟨key, hkey, h⟩ := bind_eq_ok_iff.1 h
  obtain ⟨value, hvalue, h⟩ := bind_eq_ok_iff.1 h
  obtain ⟨causal, -, h⟩ := bind_eq_ok_iff.1 h
  obtain rfl := Except.ok.inj h
  exact ⟨Operands.mem_of_tensor hquery, Operands.mem_of_tensor hkey, Operands.mem_of_tensor hvalue⟩

theorem Flash.disciplined_gradient (ops : Flash.Operators α) :
    (Flash.gradient ops).Disciplined := by
  intro args t ht
  refine disciplined_lift_bind fun c hc => ?_
  obtain ⟨hquery, hkey, hvalue⟩ := Flash.mem_of_call hc
  refine disciplined_outputsOf_bind ?_ fun results t₁ hcall => ?_
  · intro s hs
    simp only [List.mem_cons, List.not_mem_nil, or_false, Option.some.injEq] at hs
    rcases hs with rfl | rfl | rfl
    · exact has_of_mem_operands hquery [] []
    · exact has_of_mem_operands hkey [] []
    · exact has_of_mem_operands hvalue [] []
  · rw [diverts_of_empty ht]
    match results with
    | [] => exact fun _ houtputs => nomatch houtputs
    | [_] => exact fun _ houtputs => nomatch houtputs
    | primary :: auxiliary :: rest =>
      have hrecorded : primary ∈ primary :: auxiliary :: rest := List.mem_cons_self
      refine disciplined_incomingGradient_bind hrecorded fun dOut t₂ _ => ?_
      refine disciplined_outputsOf_bind ?_ fun gradients t₃ _ => ?_
      · intro s hs
        simp only [List.mem_cons, List.not_mem_nil, or_false, Option.some.injEq] at hs
        rcases hs with rfl | rfl | rfl | rfl | rfl | rfl
        · exact .inr (List.mem_append_right _ (List.mem_singleton_self _))
        · exact has_of_mem_operands hquery _ _
        · exact has_of_mem_operands hkey _ _
        · exact has_of_mem_operands hvalue _ _
        · exact .inr (List.mem_append_left _ hrecorded)
        · exact .inr (List.mem_append_left _ (List.mem_cons_of_mem _ List.mem_cons_self))
      · match gradients with
        | [] => exact fun _ houtputs => nomatch houtputs
        | [_] => exact fun _ houtputs => nomatch houtputs
        | [_, _] => exact fun _ houtputs => nomatch houtputs
        | _ :: _ :: _ :: _ :: _ => exact fun _ houtputs => nomatch houtputs
        | [dq, dk, dv] =>
          refine disciplined_accumulateGradient_bind (List.reduceOption_mem_iff.2 hquery)
            (Scope.has_afterCall (by simp) _) fun t₄ _ => ?_
          refine disciplined_accumulateGradient_bind (List.reduceOption_mem_iff.2 hkey)
            (Scope.has_afterCall (by simp) _) fun t₅ _ => ?_
          refine disciplined_accumulateGradient_bind (List.reduceOption_mem_iff.2 hvalue)
            (Scope.has_afterCall (by simp) _) fun t₆ _ => disciplined_pure ?_
          intro s hs
          rw [List.mem_singleton.1 hs]
          exact .inr (Scope.mem_recorded_afterCall hrecorded _ _)

end TraceSubstitution
