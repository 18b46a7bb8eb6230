import TraceSubstitution.Proofs.Operator.Execution
import TraceSubstitution.Proofs.SymbolMap
import TraceSubstitution.Trace.Execution

/-!
# The values of a program

A run of a program gives values to its symbols, call by call; the journal that it
writes has no influence. `Trace.evalNodes` is the run without the journal, and
`Trace.execute_eq` says that this is what `Trace.execute` answers. More values at
the start make no difference to calls that ran without them
(`Trace.evalNodes_within`), and calls change the values of their own outputs only
(`Trace.get?_evalNodes`).
-/

namespace TraceSubstitution

namespace Trace

variable {α : Type} {verify : Bool}

/-- The values after one call. -/
def evalNode (verify : Bool) (values : SymbolMap (Tensor α)) (n : Node α) :
    Except Failure (SymbolMap (Tensor α)) := do
  let operands ← n.inputs.mapM (operandOf values)
  let outputs ← computeNode verify n operands
  return values.insertAll n.outputs outputs

/-- The values after calls in order. -/
def evalNodes (verify : Bool) (nodes : List (Node α)) (values : SymbolMap (Tensor α)) :
    Except Failure (SymbolMap (Tensor α)) := nodes.foldlM (evalNode verify) values

@[simp] theorem evalNodes_nil (values : SymbolMap (Tensor α)) :
    evalNodes verify [] values = .ok values := rfl

theorem evalNodes_cons (n : Node α) (nodes : List (Node α)) (values : SymbolMap (Tensor α)) :
    evalNodes verify (n :: nodes) values =
      (evalNode verify values n >>= evalNodes verify nodes) := rfl

theorem evalNodes_append (nodes more : List (Node α)) (values : SymbolMap (Tensor α)) :
    evalNodes verify (nodes ++ more) values =
      (evalNodes verify nodes values >>= evalNodes verify more) :=
  List.foldlM_append ..

theorem fst_runNode (verify : Bool) (values : SymbolMap (Tensor α)) (n : Node α) (j : Journal) :
    ((runNode verify values n).apply j).1 = evalNode verify values n := by
  unfold runNode evalNode
  simp only [Act.apply_bind, Act.apply_lift, Act.apply_modify]
  cases n.inputs.mapM (operandOf values) with
  | error e => rfl
  | ok operands =>
    simp only [ok_bind]
    cases computeNode verify n operands with
    | error e => rfl
    | ok outputs => rfl

theorem fst_runNodes (verify : Bool) (nodes : List (Node α)) (values : SymbolMap (Tensor α)) (j : Journal) :
    ((runNodes verify nodes values).apply j).1 = evalNodes verify nodes values := by
  induction nodes generalizing values j with
  | nil => rfl
  | cons n nodes ih =>
    have hnode := fst_runNode verify values n j
    rw [runNodes, Act.apply_bind, evalNodes_cons, ← hnode]
    rcases (runNode verify values n).apply j with ⟨_ | values', j'⟩
    · rfl
    · exact ih values' j'

theorem execute_eq (t : Trace α) (tensors : List (Tensor α)) (verify : Bool) :
    t.execute tensors verify = (t.bindInputs tensors >>= fun values =>
      evalNodes verify t.nodes values >>= t.outputValues) := by
  unfold execute run
  rw [Act.apply_bind, Act.apply_lift]
  cases t.bindInputs tensors with
  | error e => rfl
  | ok values =>
    have hnodes := fst_runNodes verify t.nodes values []
    simp only [Act.apply_bind, ok_bind]
    rw [← hnodes]
    rcases (runNodes verify t.nodes values).apply [] with ⟨_ | values', j'⟩
    · rfl
    · rfl

/-- Gives one input its tensor. -/
def bindInput (t : Trace α) (values : SymbolMap (Tensor α)) (e : (SymbolId × Tensor α) × Nat) :
    Except Failure (SymbolMap (Tensor α)) := do
  let declared ← orPanic .outOfBounds (t.typeOf? e.1.1)
  ensure (declared = e.1.2.type) (.execution (.inputType e.2 e.1.2.type declared))
  return values.insert e.1.1 e.1.2

theorem bindInput_eq_ok_iff {t : Trace α} {values values' : SymbolMap (Tensor α)} {id : SymbolId}
    {tensor : Tensor α} {index : Nat} : t.bindInput values ((id, tensor), index) = .ok values' ↔
      t.typeOf? id = some tensor.type ∧ values' = values.insert id tensor := by
  unfold bindInput
  rw [bind_eq_ok_iff]
  constructor
  · rintro ⟨declared, hdeclared, h⟩
    obtain ⟨htype, hvalues⟩ := check_bind_eq_ok_iff.1 h
    obtain rfl := of_decide_eq_true (ensure_eq_ok_iff.1 htype)
    exact ⟨orPanic_eq_ok_iff.1 hdeclared, (Except.ok.inj hvalues).symm⟩
  · rintro ⟨htype, rfl⟩
    refine ⟨tensor.type, orPanic_eq_ok_iff.2 htype, check_bind_eq_ok_iff.2 ⟨?_, rfl⟩⟩
    exact ensure_eq_ok_iff.2 (decide_eq_true rfl)

/-- Tensors of the declared types become the values of the inputs. -/
theorem bindInputs_eq_ok_iff {t : Trace α} {tensors : List (Tensor α)}
    {values : SymbolMap (Tensor α)} : t.bindInputs tensors = .ok values ↔
      t.inputs.map t.typeOf? = tensors.map (some ·.type) ∧
        values = SymbolMap.empty.insertAll t.inputs tensors := by
  have hfold : ∀ (ids : List SymbolId) (tensors : List (Tensor α)) (index : Nat)
      (start : SymbolMap (Tensor α)), tensors.length = ids.length →
        (((ids.zip tensors).zipIdx index).foldlM t.bindInput start = .ok values ↔
          ids.map t.typeOf? = tensors.map (some ·.type) ∧
            values = start.insertAll ids tensors) := by
    intro ids
    induction ids with
    | nil =>
      intro tensors index start hlength
      obtain rfl := List.eq_nil_of_length_eq_zero hlength
      simp [eq_comm]
    | cons id ids ih =>
      intro tensors index start hlength
      cases tensors with
      | nil => exact nomatch hlength
      | cons tensor tensors =>
        have ih := fun start => ih tensors (index + 1) start (Nat.succ.inj hlength)
        rw [List.zip_cons_cons, List.zipIdx_cons, List.foldlM_cons, bind_eq_ok_iff, List.map_cons,
          List.map_cons, List.cons_eq_cons, SymbolMap.insertAll_cons]
        constructor
        · rintro ⟨values₁, hinput, hrest⟩
          obtain ⟨htype, rfl⟩ := bindInput_eq_ok_iff.1 hinput
          obtain ⟨htypes, rfl⟩ := (ih _).1 hrest
          exact ⟨⟨htype, htypes⟩, rfl⟩
        · rintro ⟨⟨htype, htypes⟩, rfl⟩
          exact ⟨_, bindInput_eq_ok_iff.2 ⟨htype, rfl⟩, (ih _).2 ⟨htypes, rfl⟩⟩
  unfold bindInputs
  rw [check_bind_eq_ok_iff, ensure_eq_ok_iff, decide_eq_true_iff]
  constructor
  · rintro ⟨hlength, h⟩
    exact (hfold t.inputs tensors 0 .empty hlength).1 h
  · rintro ⟨htypes, rfl⟩
    have hlength : tensors.length = t.inputs.length := by
      simpa using (congrArg List.length htypes).symm
    exact ⟨hlength, (hfold t.inputs tensors 0 .empty hlength).2 ⟨htypes, rfl⟩⟩

theorem execute_eq_ok_iff {t : Trace α} {tensors outs : List (Tensor α)} :
    t.execute tensors verify = .ok outs ↔ ∃ values,
      t.inputs.map t.typeOf? = tensors.map (some ·.type) ∧
        evalNodes verify t.nodes (SymbolMap.empty.insertAll t.inputs tensors) = .ok values ∧
          t.outputValues values = .ok outs := by
  simp only [execute_eq, bind_eq_ok_iff, bindInputs_eq_ok_iff]
  constructor
  · rintro ⟨_, ⟨htypes, rfl⟩, values, hnodes, houts⟩
    exact ⟨values, htypes, hnodes, houts⟩
  · rintro ⟨values, htypes, hnodes, houts⟩
    exact ⟨_, ⟨htypes, rfl⟩, values, hnodes, houts⟩

theorem operandOf_eq_ok_iff {values : SymbolMap (Tensor α)} (id : Option SymbolId)
    (x : Option (Tensor α)) :
    operandOf values id = .ok x ↔ id.map values.get? = x.map some := by
  cases id with
  | none => cases x <;> simp [operandOf]
  | some id =>
    cases x with
    | none => simp [operandOf, map_eq_ok_iff]
    | some x => simp [operandOf, map_eq_ok_iff, valueOf, orError_eq_ok_iff]

theorem operands_eq_ok_iff {values : SymbolMap (Tensor α)} {ids : List (Option SymbolId)}
    {xs : List (Option (Tensor α))} :
    ids.mapM (operandOf values) = .ok xs ↔
      ids.map (·.map values.get?) = xs.map (·.map some) :=
  mapM_eq_ok_iff operandOf_eq_ok_iff

theorem outputValues_eq_ok_iff {t : Trace α} {values : SymbolMap (Tensor α)}
    {xs : List (Tensor α)} :
    t.outputValues values = .ok xs ↔ t.outputs.map values.get? = xs.map some :=
  mapM_eq_ok_iff fun _ _ => orError_eq_ok_iff

theorem computeNode_eq_ok_iff {n : Node α} {xs : List (Option (Tensor α))}
    {outputs : List (Tensor α)} : computeNode true n xs = .ok outputs ↔
      n.op.operator.executeVerified xs n.attrs = .ok outputs ∧
        outputs.length = n.outputs.length := by
  unfold computeNode
  constructor
  · intro h
    obtain ⟨ys, hrun, h⟩ := bind_eq_ok_iff.1 h
    obtain ⟨hlength, hys⟩ := check_bind_eq_ok_iff.1 h
    obtain rfl : ys = outputs := Except.ok.inj hys
    exact ⟨hrun, by simpa using ensure_eq_ok_iff.1 hlength⟩
  · rintro ⟨hrun, hlength⟩
    simp [hrun, hlength]

theorem evalNode_eq_ok_iff {values values' : SymbolMap (Tensor α)} {n : Node α} :
    evalNode verify values n = .ok values' ↔ ∃ xs outputs,
      n.inputs.map (·.map values.get?) = xs.map (·.map some) ∧
        computeNode verify n xs = .ok outputs ∧ values' = values.insertAll n.outputs outputs := by
  unfold evalNode
  simp only [bind_eq_ok_iff, operands_eq_ok_iff, pure_eq_ok, Except.ok.injEq]
  constructor
  · rintro ⟨xs, hxs, outputs, hrun, rfl⟩
    exact ⟨xs, outputs, hxs, hrun, rfl⟩
  · rintro ⟨xs, outputs, hxs, hrun, rfl⟩
    exact ⟨xs, hxs, outputs, hrun, rfl⟩

/-- Operands that have values keep them when there are more values. -/
theorem reads_within {values more : SymbolMap (Tensor α)} (hle : values.Within more) :
    ∀ {ids : List (Option SymbolId)} {xs : List (Option (Tensor α))},
      ids.map (·.map values.get?) = xs.map (·.map some) →
        ids.map (·.map more.get?) = xs.map (·.map some)
  | [], [], _ => rfl
  | id :: ids, x :: xs, h => by
    obtain ⟨hhead, htail⟩ := List.cons_eq_cons.1 h
    rw [List.map_cons, List.map_cons, reads_within hle htail]
    cases id with
    | none =>
      cases x with
      | none => rfl
      | some x => exact nomatch hhead
    | some id =>
      cases x with
      | none => exact nomatch hhead
      | some x =>
        have hvalue : more.get? id = some x := hle id x (Option.some.inj hhead)
        simp [hvalue]
  | [], _ :: _, h => nomatch h
  | _ :: _, [], h => nomatch h

theorem evalNode_within {values values' more : SymbolMap (Tensor α)} {n : Node α}
    (h : evalNode verify values n = .ok values') (hle : values.Within more) :
    ∃ more', evalNode verify more n = .ok more' ∧ values'.Within more' := by
  obtain ⟨xs, outputs, hxs, hrun, rfl⟩ := evalNode_eq_ok_iff.1 h
  exact ⟨more.insertAll n.outputs outputs,
    evalNode_eq_ok_iff.2 ⟨xs, outputs, reads_within hle hxs, hrun, rfl⟩,
    hle.insertAll n.outputs outputs⟩

/-- Calls that run with some values run with more, and the values they give are the same. -/
theorem evalNodes_within {nodes : List (Node α)} {values values' more : SymbolMap (Tensor α)}
    (h : evalNodes verify nodes values = .ok values') (hle : values.Within more) :
    ∃ more', evalNodes verify nodes more = .ok more' ∧ values'.Within more' := by
  induction nodes generalizing values more with
  | nil =>
    obtain rfl : values = values' := by simpa using h
    exact ⟨more, rfl, hle⟩
  | cons n nodes ih =>
    obtain ⟨mid, hnode, hrest⟩ := bind_eq_ok_iff.1 h
    obtain ⟨mid', hnode', hle'⟩ := evalNode_within hnode hle
    obtain ⟨more', hrest', hle''⟩ := ih hrest hle'
    exact ⟨more', by rw [evalNodes_cons, hnode']; exact hrest', hle''⟩

/-- Calls leave the values alone that are not values of their outputs. -/
theorem get?_evalNodes {nodes : List (Node α)} {values values' : SymbolMap (Tensor α)}
    (h : evalNodes verify nodes values = .ok values') {id : SymbolId}
    (hid : ∀ n ∈ nodes, id ∉ n.outputs) : values'.get? id = values.get? id := by
  induction nodes generalizing values with
  | nil =>
    obtain rfl : values = values' := by simpa using h
    rfl
  | cons n nodes ih =>
    obtain ⟨mid, hnode, hrest⟩ := bind_eq_ok_iff.1 h
    obtain ⟨xs, outputs, -, -, rfl⟩ := evalNode_eq_ok_iff.1 hnode
    rw [ih hrest fun m hm => hid m (List.mem_cons_of_mem n hm)]
    exact SymbolMap.get?_insertAll_of_notMem (hid n List.mem_cons_self) values outputs

end Trace

end TraceSubstitution
