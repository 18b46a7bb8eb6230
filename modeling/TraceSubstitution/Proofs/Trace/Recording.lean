import TraceSubstitution.Proofs.Action
import TraceSubstitution.Proofs.Operator.Execution
import TraceSubstitution.Trace.Recipe

/-!
# How programs grow

A call that succeeds adds its output symbols and one node, and nothing else
(`Tracer.call_eq_ok_iff`); a call that fails changes nothing. So a recipe only
adds to the program it works on, and the nodes it adds give values to symbols that
the program did not have before: `Recipe.extends_of_run`.

`Trace.Recorded` are the programs that calls from outside build up from an empty
one.
-/

namespace TraceSubstitution

theorem Operands.mem_of_tensor {args : Operands Symbol} {index : Nat} {s : Symbol}
    (h : args.tensor index = .ok s) : some s ∈ args.tensors := by
  have hsome := Operands.tensor_eq_ok_iff.1 h
  unfold Operands.optional at hsome
  exact List.mem_of_getElem? (Option.join_eq_some_iff.1 hsome)

theorem single_eq_ok_iff {outputs : List Symbol} {s : Symbol} :
    single outputs = .ok s ↔ outputs = [s] := by
  unfold single
  split
  · next x => simp
  · next hne =>
    simp only [reduceCtorEq, false_iff]
    exact hne s

/-- The types that a call infers for its outputs from bound static arguments. -/
def NodeOp.inferTypes {α : Type} (op : NodeOp α) (types : List (Option TensorType))
    (bound : Attrs) : Except Failure (List TensorType) :=
  match op with
  | .kernel o => o.inferBound types bound
  | .highLevel o => o.infer types bound

namespace Tracer

variable {α : Type} {t t' t'' : Tracer α}

theorem owns_iff {s : Symbol} :
    t.owns s = true ↔ s.trace = t.id ∧ t.symbols[s.id.index]? = some s.type := by
  simp [owns]

theorem checkOwned_eq_ok_iff {s : Symbol} : t.checkOwned s = .ok () ↔ t.owns s = true :=
  ensure_eq_ok_iff

theorem checkAll_eq_ok_iff {symbols : List Symbol} :
    t.checkAll symbols = .ok () ↔ ∀ s ∈ symbols, t.owns s = true := by
  unfold checkAll
  induction symbols with
  | nil => simp [List.forM]
  | cons s symbols ih =>
    change (t.checkOwned s >>= fun _ => symbols.forM t.checkOwned) = .ok () ↔ _
    rw [check_bind_eq_ok_iff, checkOwned_eq_ok_iff, ih]
    simp

/-- A symbol that is not owned is the reason why a list of symbols is refused. -/
theorem exists_of_checkAll_error {symbols : List Symbol} {e : Failure}
    (h : t.checkAll symbols = .error e) :
    ∃ s ∈ symbols, e = .ofCause (.tracing (.foreignSymbol s.id s.type)) := by
  unfold checkAll at h
  induction symbols with
  | nil => exact nomatch h
  | cons s symbols ih =>
    change (t.checkOwned s >>= fun _ => symbols.forM t.checkOwned) = .error e at h
    unfold checkOwned at h
    cases howned : t.owns s with
    | false =>
      rw [howned] at h
      exact ⟨s, List.mem_cons_self, (Except.error.inj h).symm⟩
    | true =>
      rw [howned] at h
      obtain ⟨x, hx, he⟩ := ih h
      exact ⟨x, List.mem_cons_of_mem s hx, he⟩

theorem index_lt_of_owns {s : Symbol} (h : t.owns s = true) : s.id.index < t.symbols.length := by
  obtain ⟨-, hget⟩ := owns_iff.1 h
  exact (List.getElem?_eq_some_iff.1 hget).1

@[simp] theorem fresh_nil : t.fresh [] = [] := rfl

/-- The first fresh symbol, and those that are fresh after it. -/
theorem fresh_cons (t : Tracer α) (type : TensorType) (types : List TensorType) :
    t.fresh (type :: types) = ⟨t.id, t.nextId, type⟩ :: (t.declare [type]).fresh types := by
  simp only [fresh, declare, List.zipIdx_cons, List.map_cons, List.length_append,
    List.length_singleton]
  refine congrArg _ ?_
  rw [List.zipIdx_succ, List.map_map]
  apply List.map_congr_left
  rintro ⟨type', i⟩ -
  simp only [Function.comp_apply, Symbol.mk.injEq, SymbolId.mk.injEq, true_and, and_true]
  omega

/-- The program with inputs of the given types. -/
def addInputs (t : Tracer α) (types : List TensorType) : Tracer α :=
  { t with
    symbols := t.symbols ++ types
    inputs := t.inputs ++ (t.fresh types).map Symbol.id }

@[simp] theorem addInputs_nil : t.addInputs [] = t := by simp [addInputs]

theorem addInputs_cons (t : Tracer α) (type : TensorType) (types : List TensorType) :
    t.addInputs (type :: types) = (t.input type).2.addInputs types := by
  unfold addInputs
  rw [fresh_cons]
  simp only [input, declare, List.map_cons, List.append_assoc, List.singleton_append]
  rfl

@[simp] theorem length_fresh (types : List TensorType) : (t.fresh types).length = types.length := by
  simp [fresh]

@[simp] theorem map_type_fresh (types : List TensorType) :
    (t.fresh types).map Symbol.type = types := by
  simp [fresh, Function.comp_def]

theorem mem_fresh {types : List TensorType} {s : Symbol} : s ∈ t.fresh types ↔
    ∃ i, types[i]? = some s.type ∧ s.trace = t.id ∧ s.id = ⟨t.symbols.length + i⟩ := by
  obtain ⟨trace, id, type⟩ := s
  simp only [fresh, List.mem_map, List.mem_zipIdx_iff_getElem?, Prod.exists, Symbol.mk.injEq]
  constructor
  · rintro ⟨type, i, hi, rfl, rfl, rfl⟩
    exact ⟨i, hi, rfl, rfl⟩
  · rintro ⟨i, hi, rfl, rfl⟩
    exact ⟨type, i, hi, rfl, rfl, rfl⟩

theorem map_id_fresh (types : List TensorType) :
    (t.fresh types).map Symbol.id =
      (List.range types.length).map fun i => (⟨t.symbols.length + i⟩ : SymbolId) := by
  apply List.ext_getElem
  · simp
  · intro i hi hi'
    simp [fresh]

theorem nodup_map_id_fresh (types : List TensorType) : ((t.fresh types).map Symbol.id).Nodup := by
  rw [map_id_fresh, List.nodup_iff_pairwise_ne, List.pairwise_map]
  refine List.nodup_range.imp ?_
  intro i j hne heq
  exact hne (by simpa using heq)

/-- Fresh symbols have numbers that the program does not use yet. -/
theorem index_of_mem_fresh {types : List TensorType} {s : Symbol} (h : s ∈ t.fresh types) :
    t.symbols.length ≤ s.id.index ∧ s.id.index < t.symbols.length + types.length := by
  obtain ⟨i, hi, -, hid⟩ := mem_fresh.1 h
  have hlt := (List.getElem?_eq_some_iff.1 hi).1
  rw [hid]
  simp only
  omega

theorem append_eq (t : Tracer α) (n : Node α) :
    (t.append n).id = t.id ∧ (t.append n).symbols = t.symbols ∧ (t.append n).inputs = t.inputs ∧
      (t.append n).capture.isSome = t.capture.isSome ∧
      ((t.append n).nodes = t.nodes ∨ (t.append n).nodes = t.nodes ++ [n]) := by
  unfold append
  split
  · next c hc =>
    split
    · simp [hc]
    · simp
  · simp

@[simp] theorem id_append (n : Node α) : (t.append n).id = t.id := (t.append_eq n).1

@[simp] theorem symbols_append (n : Node α) : (t.append n).symbols = t.symbols :=
  (t.append_eq n).2.1

/-- Without a capture a call is recorded in the program. -/
theorem declare_append (h : t.capture = none) (types : List TensorType) (n : Node α) :
    (t.declare types).append n =
      { t with symbols := t.symbols ++ types, nodes := t.nodes ++ [n] } := by
  unfold append declare
  simp only [h]

theorem checkAll_operands_eq_ok_iff {operands : List (Option Symbol)} :
    t.checkAll (operands.flatMap Option.toList) = .ok () ↔
      ∀ s, some s ∈ operands → t.owns s = true := by
  rw [checkAll_eq_ok_iff]
  simp only [List.mem_flatMap, Option.mem_toList]
  exact ⟨fun h s hs => h s ⟨some s, hs, rfl⟩, fun h s ⟨x, hx, hs⟩ => h s (hs ▸ hx)⟩

/-- What has to be known of a call before it is recorded: its bound static arguments and the types
of its outputs. -/
def admission (t : Tracer α) (op : NodeOp α) (operands : List (Option Symbol)) (attrs : Attrs) :
    Except Failure (Attrs × List TensorType) := do
  let types := operands.map (·.map Symbol.type)
  let bound ← op.operator.bind types attrs
  let outputs ← op.inferTypes types bound
  t.checkAll (operands.flatMap Option.toList)
  return (bound, outputs)

theorem admission_eq_ok_iff {op : NodeOp α} {operands : List (Option Symbol)}
    {attrs bound : Attrs} {types : List TensorType} :
    t.admission op operands attrs = .ok (bound, types) ↔
      op.operator.bind (operands.map (·.map Symbol.type)) attrs = .ok bound ∧
      op.inferTypes (operands.map (·.map Symbol.type)) bound = .ok types ∧
      ∀ s, some s ∈ operands → t.owns s = true := by
  unfold admission
  simp only [bind_eq_ok_iff, pure_eq_ok, Except.ok.injEq, Prod.mk.injEq]
  constructor
  · rintro ⟨bound, hbound, types, htypes, _, howned, rfl, rfl⟩
    exact ⟨hbound, htypes, checkAll_operands_eq_ok_iff.1 howned⟩
  · rintro ⟨hbound, htypes, howned⟩
    exact ⟨bound, hbound, types, htypes, (), checkAll_operands_eq_ok_iff.2 howned, rfl, rfl⟩

/-- A call is recorded once everything is known of it; nothing has happened before. -/
theorem apply_call_eq (t : Tracer α) (op : NodeOp α) (operands : List (Option Symbol))
    (attrs : Attrs) : (call op operands attrs).apply t =
      match t.admission op operands attrs with
      | .ok (bound, types) => (.ok (t.fresh types), (t.declare types).append
          ⟨op, operands.map (·.map Symbol.id), bound, (t.fresh types).map Symbol.id⟩)
      | .error e => (.error e, t) := by
  change ((Act.lift (op.operator.bind (operands.map (·.map Symbol.type)) attrs) >>= fun bound =>
    Act.lift (op.inferTypes (operands.map (·.map Symbol.type)) bound) >>= fun types =>
      record op operands bound types : Act (Tracer α) (List Symbol))).apply t = _
  unfold admission
  simp only [Act.apply_bind, Act.apply_lift]
  cases op.operator.bind (operands.map (·.map Symbol.type)) attrs with
  | error e => rfl
  | ok bound =>
    simp only [ok_bind]
    cases op.inferTypes (operands.map (·.map Symbol.type)) bound with
    | error e => rfl
    | ok types =>
      unfold record
      simp only [Act.apply_bind, Act.apply_get, Act.apply_lift, ok_bind]
      cases t.checkAll (operands.flatMap Option.toList) with
      | error e => rfl
      | ok _ => rfl

/-- What a call does that succeeds. -/
theorem call_eq_ok_iff {op : NodeOp α} {operands : List (Option Symbol)} {attrs : Attrs}
    {results : List Symbol} :
    (call op operands attrs).apply t = (.ok results, t') ↔ ∃ bound types,
      op.operator.bind (operands.map (·.map Symbol.type)) attrs = .ok bound ∧
      op.inferTypes (operands.map (·.map Symbol.type)) bound = .ok types ∧
      (∀ s, some s ∈ operands → t.owns s = true) ∧ results = t.fresh types ∧
      t' = (t.declare types).append
        ⟨op, operands.map (·.map Symbol.id), bound, (t.fresh types).map Symbol.id⟩ := by
  rw [apply_call_eq]
  cases hknown : t.admission op operands attrs with
  | error e =>
    refine ⟨nofun, ?_⟩
    rintro ⟨bound, types, hbound, htypes, howned, -, -⟩
    exact nomatch hknown.symm.trans (admission_eq_ok_iff.2 ⟨hbound, htypes, howned⟩)
  | ok known =>
    obtain ⟨bound, types⟩ := known
    obtain ⟨hbound, htypes, howned⟩ := admission_eq_ok_iff.1 hknown
    constructor
    · intro h
      obtain ⟨hresults, ht'⟩ := Prod.mk.inj h
      exact ⟨bound, types, hbound, htypes, howned, (Except.ok.inj hresults).symm, ht'.symm⟩
    · rintro ⟨bound', types', hbound', htypes', -, rfl, rfl⟩
      obtain rfl := Except.ok.inj (hbound.symm.trans hbound')
      obtain rfl := Except.ok.inj (htypes.symm.trans htypes')
      rfl

/-- A call that fails changes nothing. -/
theorem atomic_call (op : NodeOp α) (operands : List (Option Symbol)) (attrs : Attrs) :
    (call op operands attrs).Atomic := by
  intro t e t' h
  rw [apply_call_eq] at h
  cases hknown : t.admission op operands attrs with
  | error e' =>
    rw [hknown] at h
    exact (Prod.mk.inj h).2.symm
  | ok known =>
    rw [hknown] at h
    exact nomatch (Prod.mk.inj h).1

/-- What it means that a gradient can be asked for: the placeholder is there already, or it is
a fresh symbol. -/
theorem incomingGradient_eq_ok_iff {primal s : Symbol} :
    (incomingGradient primal).apply t = (.ok s, t') ↔ t.owns primal = true ∧
      ∃ c, t.capture = some c ∧
        ((∃ existing, c.placeholderFor? primal.id = some existing ∧
            t.symbol existing = .ok s ∧ t' = t) ∨
          (c.placeholderFor? primal.id = none ∧ s = ⟨t.id, t.nextId, primal.type⟩ ∧
            t' = { t.declare [primal.type] with
              capture := some (c.addPlaceholder t.nextId primal.id) })) := by
  rw [← checkOwned_eq_ok_iff]
  unfold incomingGradient
  simp only [Act.apply_bind, Act.apply_get, Act.apply_liftM]
  cases t.checkOwned primal with
  | error e => simp
  | ok _ =>
    simp only [true_and]
    cases hcapture : t.capture with
    | none => simp
    | some c =>
      cases hplaceholder : c.placeholderFor? primal.id with
      | some existing => simp [Prod.ext_iff, hplaceholder, eq_comm (a := t)]
      | none =>
        simp [Prod.ext_iff, hplaceholder, Except.map, eq_comm (a := s), eq_comm (a := t')]

theorem accumulateGradient_eq_ok_iff {target contribution : Symbol} :
    (accumulateGradient target contribution).apply t = (.ok (), t') ↔
      t.owns target = true ∧ t.owns contribution = true ∧ target.type = contribution.type ∧
        ∃ c, t.capture = some c ∧
          t' = { t with capture := some (c.accumulate target.id contribution.id) } := by
  rw [← checkOwned_eq_ok_iff, ← checkOwned_eq_ok_iff]
  unfold accumulateGradient
  simp only [Act.apply_bind, Act.apply_get, Act.apply_liftM]
  cases t.checkOwned target with
  | error e => simp
  | ok _ =>
    cases t.checkOwned contribution with
    | error e => simp
    | ok _ =>
      by_cases htype : target.type = contribution.type
      · cases hcapture : t.capture <;> simp [htype, Prod.ext_iff, eq_comm (a := t')]
      · simp [htype]

/-- A request that is refused changes nothing. -/
theorem atomic_incomingGradient (primal : Symbol) :
    (incomingGradient primal : Act (Tracer α) Symbol).Atomic := by
  refine Act.readOnly_get.bind fun t => (Act.readOnly_liftM _).bind fun _ => ?_
  cases t.capture with
  | none => exact (Act.readOnly_lift _).atomic
  | some c =>
    cases hplaceholder : c.placeholderFor? primal.id with
    | some existing =>
      simp only [hplaceholder]
      exact (Act.readOnly_liftM _).atomic
    | none =>
      simp only [hplaceholder]
      exact Act.atomic_set_bind_pure _ _

/-- A contribution that is refused changes nothing. -/
theorem atomic_accumulateGradient (target contribution : Symbol) :
    (accumulateGradient target contribution : Act (Tracer α) Unit).Atomic := by
  refine Act.readOnly_get.bind fun t => (Act.readOnly_liftM _).bind fun _ =>
    (Act.readOnly_liftM _).bind fun _ => (Act.readOnly_liftM _).bind fun _ => ?_
  cases t.capture with
  | none => exact (Act.readOnly_lift _).atomic
  | some c => exact Act.atomic_set _

/-- The second program is the first one with more symbols and more calls, and these calls give
values to symbols that the first one does not have. -/
structure Extends (t t' : Tracer α) : Prop where
  id : t'.id = t.id
  symbols : t.symbols <+: t'.symbols
  inputs : t'.inputs = t.inputs
  nodes : ∃ more, t'.nodes = t.nodes ++ more ∧
    ∀ n ∈ more, ∀ s ∈ n.outputs, t.symbols.length ≤ s.index
  capture : t'.capture.isSome = t.capture.isSome

theorem Extends.refl (t : Tracer α) : t.Extends t where
  id := rfl
  symbols := List.prefix_rfl
  inputs := rfl
  nodes := ⟨[], (List.append_nil t.nodes).symm, nofun⟩
  capture := rfl

theorem Extends.trans (h : t.Extends t') (h' : t'.Extends t'') : t.Extends t'' := by
  obtain ⟨more, hmore, hfresh⟩ := h.nodes
  obtain ⟨more', hmore', hfresh'⟩ := h'.nodes
  refine ⟨h'.id.trans h.id, h.symbols.trans h'.symbols, h'.inputs.trans h.inputs,
    ⟨more ++ more', ?_, ?_⟩, h'.capture.trans h.capture⟩
  · rw [hmore', hmore, List.append_assoc]
  · intro n hn s hs
    rcases List.mem_append.1 hn with hn | hn
    · exact hfresh n hn s hs
    · exact Nat.le_trans h.symbols.length_le (hfresh' n hn s hs)

theorem Extends.owns (h : t.Extends t') {s : Symbol} (hs : t.owns s = true) :
    t'.owns s = true := by
  obtain ⟨htrace, hget⟩ := owns_iff.1 hs
  obtain ⟨types, hsymbols⟩ := h.symbols
  obtain ⟨hlt, -⟩ := List.getElem?_eq_some_iff.1 hget
  rw [owns_iff, ← hsymbols, List.getElem?_append_left hlt, h.id]
  exact ⟨htrace, hget⟩

theorem extends_declare_append (types : List TensorType) {n : Node α}
    (hn : n.outputs = (t.fresh types).map Symbol.id) :
    t.Extends ((t.declare types).append n) := by
  obtain ⟨hid, hsymbols, hinputs, hcapture, hnodes⟩ := (t.declare types).append_eq n
  refine ⟨hid, ⟨types, hsymbols.symm⟩, hinputs, ?_, hcapture⟩
  rcases hnodes with hnodes | hnodes
  · exact ⟨[], hnodes.trans (List.append_nil t.nodes).symm, nofun⟩
  · refine ⟨[n], hnodes, ?_⟩
    intro m hm s hs
    obtain rfl := List.mem_singleton.1 hm
    rw [hn] at hs
    obtain ⟨x, hx, rfl⟩ := List.mem_map.1 hs
    exact (index_of_mem_fresh hx).1

theorem extends_of_call {op : NodeOp α} {operands : List (Option Symbol)} {attrs : Attrs}
    {results : List Symbol} (h : (call op operands attrs).apply t = (.ok results, t')) :
    t.Extends t' := by
  obtain ⟨bound, types, -, -, -, -, rfl⟩ := call_eq_ok_iff.1 h
  exact extends_declare_append types rfl

theorem extends_of_incomingGradient {primal s : Symbol}
    (h : (incomingGradient primal).apply t = (.ok s, t')) : t.Extends t' := by
  obtain ⟨-, c, hc, ⟨existing, -, -, rfl⟩ | ⟨-, -, rfl⟩⟩ := incomingGradient_eq_ok_iff.1 h
  · exact .refl t'
  · refine ⟨rfl, ⟨[primal.type], rfl⟩, rfl, ⟨[], (List.append_nil t.nodes).symm, nofun⟩, ?_⟩
    rw [hc]
    rfl

theorem extends_of_accumulateGradient {target contribution : Symbol}
    (h : (accumulateGradient target contribution).apply t = (.ok (), t')) : t.Extends t' := by
  obtain ⟨-, -, -, c, hc, rfl⟩ := accumulateGradient_eq_ok_iff.1 h
  refine ⟨rfl, List.prefix_rfl, rfl, ⟨[], (List.append_nil t.nodes).symm, nofun⟩, ?_⟩
  rw [hc]
  rfl

end Tracer

namespace Recipe

variable {α β γ : Type} {t t' : Tracer α}

theorem run_call_eq_ok_iff {op : NodeOp α} {operands : List (Option Symbol)} {attrs : Attrs}
    {next : Except Error (List Symbol) → Recipe α β} {b : β} :
    (call op operands attrs next).run.apply t = (.ok b, t') ↔
      (∃ results t₁, (Tracer.call op operands attrs).apply t = (.ok results, t₁) ∧
          (next (.ok results)).run.apply t₁ = (.ok b, t')) ∨
        ∃ e, (Tracer.call op operands attrs).apply t = (.error (.error e), t) ∧
          (next (.error e)).run.apply t = (.ok b, t') := by
  rw [run, Act.apply_attempt_bind_eq_ok_iff]
  refine or_congr Iff.rfl (exists_congr fun e => ⟨?_, fun ⟨he, h⟩ => ⟨t, he, h⟩⟩)
  rintro ⟨t₁, he, h⟩
  obtain rfl := Tracer.atomic_call _ _ _ he
  exact ⟨he, h⟩

theorem run_incoming_eq_ok_iff {primal : Symbol} {next : Except Error Symbol → Recipe α β} {b : β} :
    (incoming primal next).run.apply t = (.ok b, t') ↔
      (∃ s t₁, (Tracer.incomingGradient primal).apply t = (.ok s, t₁) ∧
          (next (.ok s)).run.apply t₁ = (.ok b, t')) ∨
        ∃ e, (Tracer.incomingGradient primal).apply t = (.error (.error e), t) ∧
          (next (.error e)).run.apply t = (.ok b, t') := by
  rw [run, Act.apply_attempt_bind_eq_ok_iff]
  refine or_congr Iff.rfl (exists_congr fun e => ⟨?_, fun ⟨he, h⟩ => ⟨t, he, h⟩⟩)
  rintro ⟨t₁, he, h⟩
  obtain rfl := Tracer.atomic_incomingGradient _ he
  exact ⟨he, h⟩

theorem run_accumulate_eq_ok_iff {target contribution : Symbol}
    {next : Except Error Unit → Recipe α β} {b : β} :
    (accumulate target contribution next).run.apply t = (.ok b, t') ↔
      (∃ t₁, (Tracer.accumulateGradient target contribution).apply t = (.ok (), t₁) ∧
          (next (.ok ())).run.apply t₁ = (.ok b, t')) ∨
        ∃ e, (Tracer.accumulateGradient target contribution).apply t = (.error (.error e), t) ∧
          (next (.error e)).run.apply t = (.ok b, t') := by
  rw [run, Act.apply_attempt_bind_eq_ok_iff]
  refine or_congr ⟨fun ⟨_, h⟩ => h, fun h => ⟨(), h⟩⟩
    (exists_congr fun e => ⟨?_, fun ⟨he, h⟩ => ⟨t, he, h⟩⟩)
  rintro ⟨t₁, he, h⟩
  obtain rfl := Tracer.atomic_accumulateGradient _ _ he
  exact ⟨he, h⟩

/-- What every call, every request for a gradient and every contribution keeps is kept by a run. -/
theorem keeps_of_run {P : Tracer α → Prop}
    (hcall : ∀ t t' op operands attrs results, P t →
      (Tracer.call op operands attrs).apply t = (.ok results, t') → P t')
    (hincoming : ∀ t t' primal s, P t →
      (Tracer.incomingGradient primal).apply t = (.ok s, t') → P t')
    (haccumulate : ∀ t t' target contribution, P t →
      (Tracer.accumulateGradient target contribution).apply t = (.ok (), t') → P t')
    {r : Recipe α β} {b : β} (h : P t) (hrun : r.run.apply t = (.ok b, t')) : P t' := by
  induction r generalizing t with
  | done result =>
    obtain rfl : t = t' := (Prod.ext_iff.1 hrun).2
    exact h
  | read next ih => exact ih t h hrun
  | call op operands attrs next ih =>
    rcases run_call_eq_ok_iff.1 hrun with ⟨results, t₁, hfirst, hnext⟩ | ⟨e, -, hnext⟩
    · exact ih _ (hcall _ _ _ _ _ _ h hfirst) hnext
    · exact ih _ h hnext
  | incoming primal next ih =>
    rcases run_incoming_eq_ok_iff.1 hrun with ⟨s, t₁, hfirst, hnext⟩ | ⟨e, -, hnext⟩
    · exact ih _ (hincoming _ _ _ _ h hfirst) hnext
    · exact ih _ h hnext
  | accumulate target contribution next ih =>
    rcases run_accumulate_eq_ok_iff.1 hrun with ⟨t₁, hfirst, hnext⟩ | ⟨e, -, hnext⟩
    · exact ih _ (haccumulate _ _ _ _ h hfirst) hnext
    · exact ih _ h hnext

/-- A recipe only adds to a program. -/
theorem extends_of_run {r : Recipe α β} {b : β} (h : r.run.apply t = (.ok b, t')) :
    t.Extends t' :=
  keeps_of_run (fun _ _ _ _ _ _ ht hcall => ht.trans (Tracer.extends_of_call hcall))
    (fun _ _ _ _ ht hincoming => ht.trans (Tracer.extends_of_incomingGradient hincoming))
    (fun _ _ _ _ ht haccumulate => ht.trans (Tracer.extends_of_accumulateGradient haccumulate))
    (.refl t) h

end Recipe

end TraceSubstitution
