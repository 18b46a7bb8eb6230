import TraceSubstitution.Proofs.Operator.Coherent
import TraceSubstitution.Proofs.Trace.Calling

/-!
# Kernel calls and high-level calls

A high-level call binds its static arguments twice, a kernel call once, and what has been
recorded is bound once more when it is executed. The two kinds of call are alike
(`Operator.CallsAlike`) if both are refused with the same failure, or both are recorded
with the same operands, static arguments and output types, and these static arguments
are bound to themselves when the call is executed.

That is so exactly where bound static arguments can be bound again
(`Operator.callsAlike_iff_bindAttrs_again`), hence for all calls if and only if the
signature of the operator is coherent.
-/

namespace TraceSubstitution

variable {α : Type}

/-- What a call returns and leaves behind that is recorded with the given static arguments and
output types. -/
def Tracer.recordedAs (t : Tracer α) (op : NodeOp α) (operands : List (Option Symbol))
    (bound : Attrs) (types : List TensorType) : Except Failure (List Symbol) × Tracer α :=
  (.ok (t.fresh types), (t.declare types).append (t.nextNode op operands bound types))

/-- An error that has passed through a context is not a bare cause. -/
theorem ne_of_withContext_eq_error {β : Type} {context : String} {x : Except Failure β}
    {e : Failure} (h : withContext context x = .error e) {cause : Cause} :
    e ≠ .ofCause cause := by
  rintro rfl
  rcases x with (e | p) | b
  · exact nomatch congrArg Error.contexts (Failure.error.inj (Except.error.inj h))
  · exact nomatch Except.error.inj h
  · exact nomatch h

namespace Operator

variable {o : Operator α} {t : Tracer α} {operands : List (Option Symbol)} {attrs bound : Attrs}

/-- A high-level call of an operator is as good as a kernel call, and what is recorded can be
executed. -/
inductive CallsAlike (o : Operator α) (t : Tracer α) (operands : List (Option Symbol))
    (attrs : Attrs) : Prop where
  /-- Both calls are refused with the same failure. -/
  | refused (e : Failure) :
    (Tracer.call (.highLevel o) operands attrs).apply t = (.error e, t) →
    (Tracer.call (.kernel o) operands attrs).apply t = (.error e, t) →
    CallsAlike o t operands attrs
  /-- Both calls are recorded with the same static arguments and output types, and executing the
  call on tensors of the types of the operands binds the static arguments to themselves. -/
  | recorded (bound : Attrs) (types : List TensorType) :
    (Tracer.call (.highLevel o) operands attrs).apply t =
      t.recordedAs (.highLevel o) operands bound types →
    (Tracer.call (.kernel o) operands attrs).apply t =
      t.recordedAs (.kernel o) operands bound types →
    (∀ xs : List (Option (Tensor α)),
      xs.map (·.map Tensor.type) = operands.map (·.map Symbol.type) →
        o.bind xs bound = .ok bound) →
    CallsAlike o t operands attrs

/-- Operands that have matched the signature need not be looked at again. -/
theorem bind_of_bind {τ : Type} {xs : List (Option τ)} (hbind : o.bind xs attrs = .ok bound)
    (attrs' : Attrs) : o.bind xs attrs' = o.signature.bindAttrs o.qualifiedName attrs' := by
  obtain ⟨hoperands, -⟩ := bind_eq_ok_iff.1 hbind
  unfold Operator.bind
  rw [hoperands, ok_bind]

/-- Tensors match a signature as symbols of their types do. -/
theorem bind_tensors {xs : List (Option (Tensor α))}
    (hxs : xs.map (·.map Tensor.type) = operands.map (·.map Symbol.type)) (attrs : Attrs) :
    o.bind xs attrs = o.bind (operands.map (·.map Symbol.type)) attrs := by
  rw [← hxs, bind_map]

/-- Where bound static arguments are bound to themselves, it makes no difference to a call of which
kind it is. -/
theorem admission_highLevel
    (hagain : ∀ bound, o.bind (operands.map (·.map Symbol.type)) attrs = .ok bound →
      o.bind (operands.map (·.map Symbol.type)) bound = .ok bound) :
    t.admission (.highLevel o) operands attrs = t.admission (.kernel o) operands attrs := by
  unfold Tracer.admission
  simp only [NodeOp.operator]
  cases hbind : o.bind (operands.map (·.map Symbol.type)) attrs with
  | error e => rfl
  | ok bound =>
    have hinfer : (NodeOp.highLevel o).inferTypes (operands.map (·.map Symbol.type)) bound =
        (NodeOp.kernel o).inferTypes (operands.map (·.map Symbol.type)) bound := by
      simp only [NodeOp.inferTypes, infer, hagain bound hbind, ok_bind]
    rw [ok_bind, ok_bind, hinfer]

/-- A high-level call is refused if its bound static arguments are. -/
theorem apply_call_highLevel_of_error
    (hbind : o.bind (operands.map (·.map Symbol.type)) attrs = .ok bound) {e : Failure}
    (hagain : o.bind (operands.map (·.map Symbol.type)) bound = .error e) :
    (Tracer.call (.highLevel o) operands attrs).apply t = (.error e, t) := by
  have hadmission : t.admission (.highLevel o) operands attrs = .error e := by
    unfold Tracer.admission
    simp only [NodeOp.operator, NodeOp.inferTypes, infer, hbind, hagain, ok_bind, error_bind]
  rw [Tracer.apply_call_eq, hadmission]

/-- A kernel call whose static arguments have been bound is not refused for a mismatch with its
signature: what is left to fail is inference, which adds a context, and ownership. -/
theorem apply_call_kernel_ne
    (hbind : o.bind (operands.map (·.map Symbol.type)) attrs = .ok bound) (cause : SignatureError) :
    (Tracer.call (.kernel o) operands attrs).apply t ≠
      (.error (.ofCause (.signature cause)), t) := by
  intro h
  have hadmission : t.admission (.kernel o) operands attrs =
      .error (.ofCause (.signature cause)) := by
    rw [Tracer.apply_call_eq] at h
    cases hknown : t.admission (.kernel o) operands attrs with
    | error e =>
      rw [hknown] at h
      exact congrArg _ (Except.error.inj (Prod.mk.inj h).1)
    | ok known =>
      rw [hknown] at h
      exact nomatch (Prod.mk.inj h).1
  unfold Tracer.admission at hadmission
  simp only [NodeOp.operator, NodeOp.inferTypes, hbind, ok_bind] at hadmission
  cases hinfer : o.inferBound (operands.map (·.map Symbol.type)) bound with
  | error e =>
    rw [hinfer] at hadmission
    exact ne_of_withContext_eq_error hinfer (Except.error.inj hadmission)
  | ok types =>
    rw [hinfer, ok_bind] at hadmission
    cases howned : t.checkAll (operands.flatMap Option.toList) with
    | ok _ =>
      rw [howned] at hadmission
      exact nomatch hadmission
    | error e =>
      rw [howned] at hadmission
      obtain ⟨s, -, rfl⟩ := Tracer.exists_of_checkAll_error howned
      exact nomatch Except.error.inj hadmission

/-- The two kinds of call are alike exactly where bound static arguments are bound to themselves. -/
theorem callsAlike_iff_bindAttrs_again (hs : o.signature.Built) :
    o.CallsAlike t operands attrs ↔
      ∀ bound, o.bind (operands.map (·.map Symbol.type)) attrs = .ok bound →
        o.signature.bindAttrs o.qualifiedName bound = .ok bound := by
  constructor
  · intro halike bound hbind
    rcases hs.bindAttrs_again (bind_eq_ok_iff.1 hbind).2 with hagain | ⟨p, -, v, -, -, hagain⟩
    · exact hagain
    · -- a refusal of bound arguments shows in the high-level call only
      have hhigh : (Tracer.call (.highLevel o) operands attrs).apply t =
          (.error (Signature.mismatch o.qualifiedName p v), t) :=
        apply_call_highLevel_of_error hbind ((bind_of_bind hbind bound).trans hagain)
      cases halike with
      | refused e hhigh' hkernel =>
        obtain rfl := Except.error.inj (Prod.mk.inj (hhigh.symm.trans hhigh')).1
        exact absurd hkernel (apply_call_kernel_ne hbind _)
      | recorded bound' types hhigh' _ _ =>
        exact nomatch (Prod.mk.inj (hhigh.symm.trans hhigh')).1
  · intro hagain
    have hsame : t.admission (.highLevel o) operands attrs =
        t.admission (.kernel o) operands attrs :=
      admission_highLevel fun bound hbind =>
        (bind_of_bind hbind bound).trans (hagain bound hbind)
    have hhigh := Tracer.apply_call_eq t (.highLevel o) operands attrs
    have hkernel := Tracer.apply_call_eq t (.kernel o) operands attrs
    rw [hsame] at hhigh
    cases hknown : t.admission (.kernel o) operands attrs with
    | error e =>
      rw [hknown] at hhigh hkernel
      exact .refused e hhigh hkernel
    | ok known =>
      obtain ⟨bound, types⟩ := known
      rw [hknown] at hhigh hkernel
      have hbind : o.bind (operands.map (·.map Symbol.type)) attrs = .ok bound :=
        (Tracer.admission_eq_ok_iff.1 hknown).1
      refine .recorded bound types hhigh hkernel fun xs hxs => ?_
      rw [bind_tensors hxs, bind_of_bind hbind bound]
      exact hagain bound hbind

/-- Operands that are all there match every signature of their number. -/
theorem bind_of_bindAttrs {τ : Type} (x : τ)
    (h : o.signature.bindAttrs o.qualifiedName attrs = .ok bound) :
    o.bind (o.signature.tensors.map fun _ => some x) attrs = .ok bound := by
  refine bind_eq_ok_iff.2 ⟨?_, h⟩
  unfold Signature.checkOperands
  have hnone : ∀ missing : TensorParam × Option τ → Bool, (∀ p, missing (p, some x) = false) →
      (o.signature.tensors.zip (o.signature.tensors.map fun _ => some x)).find? missing = none := by
    intro missing hmissing
    rw [List.find?_eq_none]
    rintro ⟨p, y⟩ hmem
    obtain ⟨q, -, rfl⟩ := List.mem_map.1 (List.of_mem_zip hmem).2
    rw [hmissing]
    exact Bool.false_ne_true
  rw [if_neg (by simp), hnone]
  exact fun _ => rfl

/-- All calls of an operator are alike if and only if all its bound static arguments are bound to
themselves. -/
theorem callsAlike_all_iff (hs : o.signature.Built) :
    (∀ (t : Tracer α) operands attrs, o.CallsAlike t operands attrs) ↔
      ∀ attrs bound, o.signature.bindAttrs o.qualifiedName attrs = .ok bound →
        o.signature.bindAttrs o.qualifiedName bound = .ok bound := by
  simp only [callsAlike_iff_bindAttrs_again hs]
  constructor
  · intro h attrs bound hbound
    let x : Symbol := ⟨⟨0⟩, ⟨0⟩, oneNumber⟩
    refine h (.empty ⟨0⟩) (o.signature.tensors.map fun _ => some x) attrs bound ?_
    rw [bind_map]
    exact bind_of_bindAttrs x hbound
  · intro h t operands attrs bound hbind
    exact h attrs bound (bind_eq_ok_iff.1 hbind).2

/-- A call is made alike in both ways, and can be executed, if and only if its bound static
arguments are bound to themselves. Otherwise some parameter does not accept what has been bound to
its name: the high-level call is refused for it, and so is the execution of the kernel call. All
calls are alike if and only if the signature is coherent or no call fits it; where names are
distinct, if and only if every default is accepted. -/
theorem callsAlike_iff (hs : o.signature.Built) :
    (∀ (t : Tracer α) operands attrs, o.CallsAlike t operands attrs ↔
      ∀ bound, o.bind (operands.map (·.map Symbol.type)) attrs = .ok bound →
        o.signature.bindAttrs o.qualifiedName bound = .ok bound) ∧
    (∀ (t : Tracer α) operands attrs, ¬ o.CallsAlike t operands attrs →
      ∃ bound, o.bind (operands.map (·.map Symbol.type)) attrs = .ok bound ∧
        ∃ p ∈ o.signature.attrs, ∃ v, bound.get? p.name = some v ∧ ¬ p.kind.Takes v ∧
          (Tracer.call (.highLevel o) operands attrs).apply t =
            (.error (Signature.mismatch o.qualifiedName p v), t) ∧
          ∀ xs : List (Option (Tensor α)),
            xs.map (·.map Tensor.type) = operands.map (·.map Symbol.type) →
              o.execute xs bound = .error (Signature.mismatch o.qualifiedName p v)) ∧
    ((∀ (t : Tracer α) operands attrs, o.CallsAlike t operands attrs) ↔
      ((∃ attrs, o.signature.Fits attrs) → o.signature.Coherent)) ∧
    ((o.signature.attrs.map (·.name)).Nodup →
      ((∀ (t : Tracer α) operands attrs, o.CallsAlike t operands attrs) ↔
        ∀ p ∈ o.signature.attrs, ∀ d, p.default = some d → p.kind.Takes d)) := by
  refine ⟨fun t operands attrs => callsAlike_iff_bindAttrs_again hs,
    fun t operands attrs hnot => ?_,
    (callsAlike_all_iff hs).trans (Signature.bindAttrs_again_iff hs _), fun hdistinct => ?_⟩
  · rw [callsAlike_iff_bindAttrs_again hs] at hnot
    push Not at hnot
    obtain ⟨bound, hbind, hagain⟩ := hnot
    obtain hself | ⟨p, hp, v, hv, hrefused, herror⟩ :=
      hs.bindAttrs_again (bind_eq_ok_iff.1 hbind).2
    · exact absurd hself hagain
    · refine ⟨bound, hbind, p, hp, v, hv, ?_, ?_, fun xs hxs => ?_⟩
      · rw [← AttrKind.accepts_iff_takes, hrefused]
        exact Bool.false_ne_true
      · exact apply_call_highLevel_of_error hbind ((bind_of_bind hbind bound).trans herror)
      · unfold execute
        rw [bind_tensors hxs, bind_of_bind hbind bound, herror, error_bind]
  · rw [callsAlike_all_iff hs, Signature.bindAttrs_again_iff hs,
      ← Signature.coherent_iff hdistinct, forall_prop_of_true (Signature.exists_fits hdistinct)]

/-- An operator without operands whose number is unset where it is left out, although a number is
declared. -/
def lenient : Operator Float32 where
  id := ⟨100⟩
  space := "sample"
  name := "lenient"
  signature := Signature.empty.attr "scale" .float .unset
  outputTypes _ := .ok [oneNumber]
  compute _ := .ok []

theorem built_lenient : lenient.signature.Built := .attr _ _ _ .empty

/-- All calls of `core::add` are alike; those of the operator with the wrong default are not. -/
theorem callsAlike_iff_samples :
    (∀ (t : Tracer Float32) operands attrs,
      (Core.add : Operator Float32).CallsAlike t operands attrs) ∧
    lenient.signature.Built ∧
    ¬ ∀ (t : Tracer Float32) operands attrs, lenient.CallsAlike t operands attrs := by
  have hadd : (Core.add : Operator Float32).signature.Built := .tensor _ (.tensor _ .empty)
  obtain ⟨-, -, -, hsame⟩ := callsAlike_iff hadd
  obtain ⟨-, -, -, hdiffer⟩ := callsAlike_iff built_lenient
  refine ⟨(hsame List.nodup_nil).2 nofun, built_lenient, fun hall => ?_⟩
  have htakes := (hdiffer (List.nodup_singleton _)).1 hall _ List.mem_cons_self .unset rfl
  exact nomatch htakes

/-- The kernel call is recorded with the default; the high-level call is refused, and so is the
execution of what the kernel call has recorded. -/
theorem lenient_calls_differ :
    let t : Tracer Float32 := .empty ⟨0⟩
    let bound : Attrs := .ofList [("scale", .unset)]
    let e : Failure := Signature.mismatch "sample::lenient" ⟨"scale", .float, some .unset⟩ .unset
    (Tracer.call (.kernel lenient) [] .empty).apply t =
        t.recordedAs (.kernel lenient) [] bound [oneNumber] ∧
      (Tracer.call (.highLevel lenient) [] .empty).apply t = (.error e, t) ∧
      lenient.execute [] bound = .error e ∧ ¬ lenient.CallsAlike t [] .empty := by
  intro t bound e
  have hkernel : (Tracer.call (.kernel lenient) [] .empty).apply t =
      t.recordedAs (.kernel lenient) [] bound [oneNumber] := rfl
  have hhigh : (Tracer.call (.highLevel lenient) [] .empty).apply t = (.error e, t) := rfl
  refine ⟨hkernel, hhigh, rfl, fun halike => ?_⟩
  cases halike with
  | refused e' _ hkernel' => exact nomatch (Prod.mk.inj (hkernel.symm.trans hkernel')).1
  | recorded bound' types hhigh' _ _ => exact nomatch (Prod.mk.inj (hhigh.symm.trans hhigh')).1

end Operator

end TraceSubstitution
