import TraceSubstitution.Proofs.Replacement.Steps
import TraceSubstitution.Proofs.SymbolMap
import TraceSubstitution.Proofs.Trace.Recording

/-!
# What a successful call of the source does

Each part of a step succeeds under a condition that can be written down, and it
changes the new program in one way. `kernelStep_eq_ok_iff` and
`decidedStep_eq_ok_iff` say so for whole steps, `forwardOutputs_eq_ok_iff` and
`jointOutputs_eq_ok_iff` for what takes the place of a call.
-/

namespace TraceSubstitution

variable {α β : Type}

namespace Progress

variable {p p' : Progress α} {n : Node α}

theorem withTracer_eq_ok_iff {x : Act (Tracer α) β} {b : β} :
    p.withTracer x = .ok (b, p') ↔
      ∃ t, x.apply p.tracer = (.ok b, t) ∧ p' = { p with tracer := t } := by
  unfold withTracer
  rw [map_eq_ok_iff]
  constructor
  · rintro ⟨⟨b', t⟩, hx, heq⟩
    obtain ⟨rfl, rfl⟩ := Prod.mk.inj heq
    exact ⟨t, Act.outcome_eq_ok_iff.1 hx, rfl⟩
  · rintro ⟨t, hx, rfl⟩
    exact ⟨(b, t), Act.outcome_eq_ok_iff.2 hx, rfl⟩

theorem bindOutputs_eq_ok_iff {outputs : List Symbol} :
    p.bindOutputs n outputs = .ok p' ↔ outputs.length = n.outputs.length ∧
      p' = { p with symbols := p.symbols.insertAll n.outputs outputs } := by
  unfold bindOutputs
  rw [check_bind_eq_ok_iff, ensure_eq_ok_iff, decide_eq_true_iff, pure_eq_ok, Except.ok.injEq,
    eq_comm (a := p')]

theorem symbolFor_eq_ok_iff {id : SymbolId} {x : Symbol} :
    p.symbolFor id = .ok x ↔ p.symbols.get? id = some x := orError_eq_ok_iff

theorem operandFor_eq_ok_iff (id : Option SymbolId) (x : Option Symbol) :
    p.operandFor id = .ok x ↔ id.map p.symbols.get? = x.map some := by
  cases id with
  | none => cases x <;> simp [operandFor]
  | some id =>
    cases x with
    | none => simp [operandFor, map_eq_ok_iff]
    | some x => simp [operandFor, map_eq_ok_iff, symbolFor_eq_ok_iff]

theorem operandsFor_eq_ok_iff {operands : List (Option Symbol)} :
    p.operandsFor n = .ok operands ↔
      n.inputs.map (·.map p.symbols.get?) = operands.map (·.map some) :=
  mapM_eq_ok_iff operandFor_eq_ok_iff

theorem symbolsFor_eq_ok_iff {ids : List SymbolId} {symbols : List Symbol} :
    ids.mapM p.symbolFor = .ok symbols ↔ ids.map p.symbols.get? = symbols.map some :=
  mapM_eq_ok_iff fun _ _ => symbolFor_eq_ok_iff

/-- One input: a fresh symbol stands for it. -/
theorem addInput_eq_ok_iff {source : Trace α} {id : SymbolId} :
    addInput source p id = .ok p' ↔ ∃ type, source.typeOf? id = some type ∧
      p' = { p with
        tracer := (p.tracer.input type).2
        symbols := p.symbols.insert id (p.tracer.input type).1 } := by
  unfold addInput
  simp only [bind_eq_ok_iff, orPanic_eq_ok_iff, pure_eq_ok, Except.ok.injEq, eq_comm (a := p')]

/-- The inputs of a source: fresh symbols of the same types stand for them. -/
theorem addInputs_eq_ok_iff {source : Trace α} {ids : List SymbolId} :
    ids.foldlM (addInput source) p = .ok p' ↔ ∃ types, ids.map source.typeOf? = types.map some ∧
      p' = { p with
        tracer := p.tracer.addInputs types
        symbols := p.symbols.insertAll ids (p.tracer.fresh types) } := by
  induction ids generalizing p with
  | nil =>
    constructor
    · intro h
      obtain rfl : p = p' := by simpa using h
      exact ⟨[], rfl, by simp⟩
    · rintro ⟨types, htypes, rfl⟩
      obtain rfl : types = [] := by simpa using htypes.symm
      simp
  | cons id ids ih =>
    rw [List.foldlM_cons, bind_eq_ok_iff]
    constructor
    · rintro ⟨p₁, hinput, hrest⟩
      obtain ⟨type, htype, rfl⟩ := addInput_eq_ok_iff.1 hinput
      obtain ⟨types, htypes, heq⟩ := ih.1 hrest
      refine ⟨type :: types, by simp [htype, htypes], ?_⟩
      rw [heq, Tracer.addInputs_cons, Tracer.fresh_cons]
      rfl
    · rintro ⟨types, htypes, heq⟩
      cases types with
      | nil => exact nomatch htypes
      | cons type types =>
        obtain ⟨htype, htypes⟩ := List.cons_eq_cons.1 htypes
        refine ⟨_, addInput_eq_ok_iff.2 ⟨type, htype, rfl⟩, ih.2 ⟨types, htypes, ?_⟩⟩
        rw [heq, Tracer.addInputs_cons, Tracer.fresh_cons]
        rfl

/-- The beginning of a new program. -/
theorem start_eq_ok_iff {id : TraceId} {source : Trace α} :
    start id source = .ok p ↔ ∃ types, source.inputs.map source.typeOf? = types.map some ∧
      p = ⟨(Tracer.empty id).addInputs types,
        SymbolMap.empty.insertAll source.inputs ((Tracer.empty id : Tracer α).fresh types), []⟩ :=
  addInputs_eq_ok_iff

end Progress

theorem checkTransform_eq_ok_iff {o : Operator α} {executor : String}
    {operands : List (Option Symbol)} {attrs : Attrs} {outputs : List Symbol} :
    checkTransform o executor operands attrs outputs = .ok () ↔
      o.infer (operands.map (·.map Symbol.type)) attrs = .ok (outputs.map Symbol.type) := by
  unfold checkTransform
  rw [bind_eq_ok_iff]
  constructor
  · rintro ⟨declared, hinfer, h⟩
    cases hdifference : firstDifference? 0 declared (outputs.map Symbol.type) with
    | none => rw [hinfer, firstDifference?_eq_none_iff.1 hdifference]
    | some difference =>
      rw [hdifference] at h
      exact nomatch h
  · intro hinfer
    refine ⟨outputs.map Symbol.type, hinfer, ?_⟩
    rw [firstDifference?_eq_none_iff.2 rfl]
    rfl

namespace Replacer

variable {r : Replacer α} {gradient : Bool} {p p' : Progress α} {o : Operator α} {n : Node α}
  {operands : List (Option Symbol)} {outputs : List Symbol} {fragment : Fragment α}

/-- A kernel call is recorded again, in a forward program. -/
theorem kernelStep_eq_ok_iff : kernelStep gradient p o n = .ok (p', fragment) ↔
    gradient = false ∧ fragment = ⟨[], []⟩ ∧ ∃ operands results t,
      p.operandsFor n = .ok operands ∧
        (Tracer.call (.kernel o) operands n.attrs).apply p.tracer = (.ok results, t) ∧
          results.length = n.outputs.length ∧
            p' = ⟨t, p.symbols.insertAll n.outputs results, p.report⟩ := by
  unfold kernelStep
  cases gradient with
  | true => simp
  | false =>
    simp only [Bool.false_eq_true, ↓reduceIte, bind_eq_ok_iff, Prod.exists,
      Progress.withTracer_eq_ok_iff, Progress.bindOutputs_eq_ok_iff, pure_eq_ok, Except.ok.injEq,
      Prod.mk.injEq, true_and]
    constructor
    · rintro ⟨operands, hoperands, results, -, ⟨t, hcall, rfl⟩, _, ⟨hlength, rfl⟩, rfl, rfl⟩
      exact ⟨rfl, operands, results, t, hoperands, hcall, hlength, rfl⟩
    · rintro ⟨rfl, operands, results, t, hoperands, hcall, hlength, rfl⟩
      exact ⟨operands, hoperands, results, _, ⟨t, hcall, rfl⟩, _, ⟨hlength, rfl⟩, rfl, rfl⟩

/-- A high-level call that nothing replaces is recorded again. -/
theorem forwardOutputs_none_eq_ok_iff :
    forwardOutputs p o n operands none = .ok (outputs, p') ↔ ∃ t,
      (Tracer.call (.highLevel o) operands n.attrs).apply p.tracer = (.ok outputs, t) ∧
        p' = { p with tracer := t } := Progress.withTracer_eq_ok_iff

/-- The execution transform of the rule takes the place of the call. -/
theorem forwardOutputs_some_eq_ok_iff {rule : Rule α} :
    forwardOutputs p o n operands (some rule) = .ok (outputs, p') ↔ ∃ t,
      (rule.execution ⟨o.qualifiedName, operands, n.attrs⟩).run.apply p.tracer = (.ok outputs, t) ∧
        o.infer (operands.map (·.map Symbol.type)) n.attrs = .ok (outputs.map Symbol.type) ∧
          p' = { p with tracer := t } := by
  simp only [forwardOutputs, bind_eq_ok_iff, Prod.exists, withContext_eq_ok_iff,
    Progress.withTracer_eq_ok_iff, pure_eq_ok, Except.ok.injEq, Prod.mk.injEq]
  constructor
  · rintro ⟨_, _, ⟨t, hrun, rfl⟩, _, hcheck, rfl, rfl⟩
    exact ⟨t, hrun, checkTransform_eq_ok_iff.1 hcheck, rfl⟩
  · rintro ⟨t, hrun, hinfer, rfl⟩
    exact ⟨outputs, _, ⟨t, hrun, rfl⟩, (), checkTransform_eq_ok_iff.2 hinfer, rfl, rfl⟩

/-- A gradient transform takes the place of the call, with a capture open. -/
theorem jointOutputs_eq_ok_iff {rule : Option (Rule α)} :
    r.jointOutputs p o n operands rule = .ok (outputs, fragment, p') ↔
      ∃ transform executor t, r.gradientTransform o rule = .ok (transform, executor) ∧
        (transform ⟨o.qualifiedName, operands, n.attrs⟩).run.apply p.tracer.beginBackward =
          (.ok outputs, t) ∧
        o.infer (operands.map (·.map Symbol.type)) n.attrs = .ok (outputs.map Symbol.type) ∧
        fragment = t.endBackward.1 ∧ p' = { p with tracer := t.endBackward.2 } := by
  simp only [jointOutputs, bind_eq_ok_iff, Prod.exists, withContext_eq_ok_iff,
    Progress.withTracer_eq_ok_iff, pure_eq_ok, Except.ok.injEq, Prod.mk.injEq]
  constructor
  · rintro ⟨transform, executor, hselected, _, _, ⟨t, hrun, rfl⟩, _, hcheck, rfl, rfl, rfl⟩
    exact ⟨transform, executor, t, hselected, hrun, checkTransform_eq_ok_iff.1 hcheck, rfl, rfl⟩
  · rintro ⟨transform, executor, t, hselected, hrun, hinfer, rfl, rfl⟩
    exact ⟨transform, executor, hselected, outputs, _, ⟨t, hrun, rfl⟩, (),
      checkTransform_eq_ok_iff.2 hinfer, rfl, rfl, rfl⟩

theorem replacement_false_of_ok {rule : Option (Rule α)}
    (h : forwardOutputs p o n operands rule = .ok (outputs, p')) :
    r.replacement false p o n operands rule = .ok (outputs, ⟨[], []⟩, p') := by
  unfold replacement
  simp only [Bool.false_eq_true, ↓reduceIte, h, ok_bind, pure_eq_ok]

theorem replacement_true_of_run {rule : Option (Rule α)} {transform : Transform α}
    {executor : String} {t : Tracer α}
    (hselected : r.gradientTransform o rule = .ok (transform, executor))
    (hrun : (transform ⟨o.qualifiedName, operands, n.attrs⟩).run.apply p.tracer.beginBackward =
      (.ok outputs, t))
    (hinfer : o.infer (operands.map (·.map Symbol.type)) n.attrs =
      .ok (outputs.map Symbol.type)) :
    r.replacement true p o n operands rule =
      .ok (outputs, t.endBackward.1, { p with tracer := t.endBackward.2 }) :=
  jointOutputs_eq_ok_iff.2 ⟨transform, executor, t, hselected, hrun, hinfer, rfl, rfl⟩

/-- What takes the place of a call leaves the symbols and the report alone. -/
theorem replacement_eq_ok {rule : Option (Rule α)}
    (h : r.replacement gradient p o n operands rule = .ok (outputs, fragment, p')) :
    p' = { p with tracer := p'.tracer } := by
  unfold replacement at h
  cases gradient with
  | true =>
    obtain ⟨_, _, t, -, -, -, -, rfl⟩ := jointOutputs_eq_ok_iff.1 h
    rfl
  | false =>
    obtain ⟨⟨outputs, p₁⟩, houtputs, heq⟩ := bind_eq_ok_iff.1 h
    obtain ⟨rfl, rfl, rfl⟩ : outputs = _ ∧ ⟨[], []⟩ = fragment ∧ p₁ = p' := by
      simpa using heq
    cases rule with
    | none =>
      obtain ⟨t, -, rfl⟩ := forwardOutputs_none_eq_ok_iff.1 houtputs
      rfl
    | some rule =>
      obtain ⟨t, -, -, rfl⟩ := forwardOutputs_some_eq_ok_iff.1 houtputs
      rfl

theorem decidedStep_eq_ok_iff {record : DispatchRecord} {rule : Option (Rule α)} :
    r.decidedStep gradient p o n operands record rule = .ok (p', fragment) ↔ ∃ outputs p₁,
      r.replacement gradient p o n operands rule = .ok (outputs, fragment, p₁) ∧
        outputs.length = n.outputs.length ∧
          p' = ⟨p₁.tracer, p.symbols.insertAll n.outputs outputs, p.report ++ [record]⟩ := by
  simp only [decidedStep, bind_eq_ok_iff, Prod.exists, Progress.bindOutputs_eq_ok_iff, pure_eq_ok,
    Except.ok.injEq, Prod.mk.injEq]
  constructor
  · rintro ⟨outputs, _, p₁, hreplacement, _, ⟨hlength, rfl⟩, rfl, rfl⟩
    refine ⟨outputs, p₁, hreplacement, hlength, ?_⟩
    rw [replacement_eq_ok hreplacement]
  · rintro ⟨outputs, p₁, hreplacement, hlength, rfl⟩
    refine ⟨outputs, fragment, p₁, hreplacement, _, ⟨hlength, rfl⟩, ?_, rfl⟩
    rw [replacement_eq_ok hreplacement]

end Replacer

end TraceSubstitution
