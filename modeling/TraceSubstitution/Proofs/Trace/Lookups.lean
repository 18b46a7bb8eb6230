import TraceSubstitution.Proofs.Outcome
import TraceSubstitution.Proofs.Trace.Closed

/-!
# Values that are looked up

A run looks up the operands of every call and, in the end, the outputs. In a closed
program whose numbers are below the number of symbols it finds them all, whatever the
operators do (`Trace.Closed.served`). The two errors that report a missing value
come from nowhere else: what an operator reports carries a context, so no run of such a
program ends with one of them.
-/

namespace TraceSubstitution

/-- The error that a value is looked up which is not there. -/
def Failure.IsLookup (e : Failure) : Prop :=
  ∃ id, e = .ofCause (.execution (.noValue id)) ∨ e = .ofCause (.execution (.neverComputed id))

/-- The failure is not that a value is missing. -/
def Failure.NotLookup (e : Failure) : Prop := ¬e.IsLookup

namespace Failure

theorem notLookup_panic (p : Panic) : (panic p).NotLookup := by
  rintro ⟨id, h | h⟩
  · exact nomatch h
  · exact nomatch h

theorem notLookup_ofCause {c : Cause}
    (h : ∀ id, c ≠ .execution (.noValue id) ∧ c ≠ .execution (.neverComputed id)) :
    (ofCause c).NotLookup := by
  rintro ⟨id, heq | heq⟩
  · exact (h id).1 (congrArg Error.cause (Failure.error.inj heq))
  · exact (h id).2 (congrArg Error.cause (Failure.error.inj heq))

theorem notLookup_within (context : String) (e : Failure) : (e.within context).NotLookup := by
  cases e with
  | panic p => exact notLookup_panic p
  | error e =>
    rintro ⟨id, heq | heq⟩
    · exact nomatch congrArg Error.contexts (Failure.error.inj heq)
    · exact nomatch congrArg Error.contexts (Failure.error.inj heq)

end Failure

open Failure

theorem notLookup_withContext {β : Type} (context : String) (x : Except Failure β) :
    Ends NotLookup (withContext context x) fun _ => True := by
  cases x with
  | ok b => trivial
  | error e => exact notLookup_within context e

theorem notLookup_ensure {condition : Bool} {c : Cause}
    (h : ∀ id, c ≠ .execution (.noValue id) ∧ c ≠ .execution (.neverComputed id)) :
    Ends NotLookup (ensure condition c) fun _ => True := by
  cases condition with
  | true => trivial
  | false => exact notLookup_ofCause h

namespace Signature

theorem notLookup_checkOperands {τ : Type} (s : Signature) (op : String)
    (operands : List (Option τ)) :
    Ends NotLookup (s.checkOperands op operands) fun _ => True := by
  unfold checkOperands
  split
  · exact notLookup_ofCause fun _ => ⟨nofun, nofun⟩
  · split
    · exact notLookup_ofCause fun _ => ⟨nofun, nofun⟩
    · trivial

theorem notLookup_bindAttr (op : String) (attrs : Attrs) (p : AttrParam) :
    Ends NotLookup (bindAttr op attrs p) fun _ => True := by
  unfold bindAttr
  split
  · split
    · trivial
    · exact notLookup_ofCause fun _ => ⟨nofun, nofun⟩
  · cases p.default with
    | none => exact notLookup_ofCause fun _ => ⟨nofun, nofun⟩
    | some v => trivial

theorem notLookup_bindAttrs (s : Signature) (op : String) (attrs : Attrs) :
    Ends NotLookup (s.bindAttrs op attrs) fun _ => True := by
  unfold bindAttrs
  split
  · exact notLookup_ofCause fun _ => ⟨nofun, nofun⟩
  · exact Ends.foldlM (fun p _ _ _ => (notLookup_bindAttr op attrs p).bind fun _ _ _ => trivial)
      trivial

end Signature

namespace Operator

variable {α : Type} (o : Operator α)

theorem notLookup_bind {τ : Type} (operands : List (Option τ)) (attrs : Attrs) :
    Ends NotLookup (o.bind operands attrs) fun _ => True :=
  (o.signature.notLookup_checkOperands _ operands).bind fun _ _ _ =>
    o.signature.notLookup_bindAttrs _ attrs

theorem notLookup_infer (types : List (Option TensorType)) (attrs : Attrs) :
    Ends NotLookup (o.infer types attrs) fun _ => True :=
  (o.notLookup_bind types attrs).bind fun _ _ _ => notLookup_withContext _ _

theorem notLookup_execute (operands : List (Option (Tensor α))) (attrs : Attrs) :
    Ends NotLookup (o.execute operands attrs) fun _ => True :=
  (o.notLookup_bind operands attrs).bind fun _ _ _ => notLookup_withContext _ _

theorem notLookup_checkOutputs (declared produced : List TensorType) :
    Ends NotLookup (o.checkOutputs declared produced) fun _ => True := by
  unfold checkOutputs
  split
  · exact notLookup_ofCause fun _ => ⟨nofun, nofun⟩
  · split
    · exact notLookup_ofCause fun _ => ⟨nofun, nofun⟩
    · trivial

theorem notLookup_executeVerified (operands : List (Option (Tensor α))) (attrs : Attrs) :
    Ends NotLookup (o.executeVerified operands attrs) fun _ => True :=
  (o.notLookup_execute operands attrs).bind fun _ _ _ =>
    (o.notLookup_infer _ attrs).bind fun _ _ _ =>
      (o.notLookup_checkOutputs _ _).bind fun _ _ _ => trivial

end Operator

namespace Trace

variable {α : Type} {p : Trace α}

/-- What an operator answers is not taken for a missing value. -/
theorem notLookup_computeNode (verify : Bool) (n : Node α) (xs : List (Option (Tensor α))) :
    Ends NotLookup (computeNode verify n xs) fun _ => True := by
  have houtputs : ∀ outputs : List (Tensor α), Ends NotLookup (do
      ensure (outputs.length = n.outputs.length) (.execution
        (.outputCount n.op.operator.qualifiedName outputs.length n.outputs.length))
      return outputs) fun _ => True := by
    intro outputs
    exact Ends.bind (notLookup_ensure (by exact fun _ => ⟨nofun, nofun⟩)) fun _ _ _ => trivial
  unfold computeNode
  cases verify with
  | true => exact (n.op.operator.notLookup_executeVerified xs n.attrs).bind fun _ _ _ => houtputs _
  | false => exact (n.op.operator.notLookup_execute xs n.attrs).bind fun _ _ _ => houtputs _

theorem notLookup_bindInputs (p : Trace α) (tensors : List (Tensor α)) :
    Ends NotLookup (p.bindInputs tensors) fun _ => True := by
  unfold bindInputs
  refine Ends.bind (notLookup_ensure (by exact fun _ => ⟨nofun, nofun⟩)) fun _ _ _ => ?_
  refine Ends.foldlM ?_ trivial
  rintro ⟨⟨id, tensor⟩, index⟩ _ values _
  cases htype : p.typeOf? id with
  | none =>
    simp only [htype]
    exact notLookup_panic _
  | some declared =>
    simp only [htype, orPanic_some, ok_bind]
    exact Ends.bind (notLookup_ensure (by exact fun _ => ⟨nofun, nofun⟩)) fun _ _ _ => trivial

/-- Tensors are refused, never with a panic, if every input has a type. -/
theorem reports_bindInputs (h : ∀ id ∈ p.inputs, id.index < p.symbols.length)
    (tensors : List (Tensor α)) : Reports (p.bindInputs tensors) fun _ => True := by
  unfold bindInputs
  refine reports_ensure_bind fun _ => Ends.foldlM ?_ trivial
  rintro ⟨⟨id, tensor⟩, index⟩ he values _
  have hid : id ∈ p.inputs := (List.of_mem_zip (List.fst_mem_of_mem_zipIdx he)).1
  have htype : p.typeOf? id = some _ := List.getElem?_eq_getElem (h id hid)
  simp only [htype, orPanic_some, ok_bind]
  exact reports_ensure_bind fun _ => trivial

/-- All numbers lie within the table of values, and a run finds every value that it looks up. -/
structure Served (p : Trace α) : Prop where
  /-- A tensor is put in its place for every input. -/
  inputs : ∀ id ∈ p.inputs, id.index < p.symbols.length
  /-- The operands lie within the table. -/
  operands : ∀ n ∈ p.nodes, ∀ id, some id ∈ n.inputs → id.index < p.symbols.length
  /-- The outputs of nodes lie within the table. -/
  results : ∀ n ∈ p.nodes, ∀ id ∈ n.outputs, id.index < p.symbols.length
  /-- The outputs of the program lie within the table. -/
  outputs : ∀ id ∈ p.outputs, id.index < p.symbols.length
  /-- Tensors that are refused are refused with an error. -/
  bind : ∀ tensors e, p.bindInputs tensors ≠ .error (.panic e)
  /-- When a call comes to be run, its operands have values. -/
  reads : ∀ verify tensors start before n after values, p.bindInputs tensors = .ok start →
    p.nodes = before ++ n :: after → evalNodes verify before start = .ok values →
      ∃ xs, n.inputs.mapM (operandOf values) = .ok xs
  /-- When all calls have been run, the outputs have values. -/
  returns : ∀ verify tensors start values, p.bindInputs tensors = .ok start →
    evalNodes verify p.nodes start = .ok values → ∃ outs, p.outputValues values = .ok outs
  /-- No run ends with a missing value. -/
  execute : ∀ tensors verify id,
    p.execute tensors verify ≠ .error (.ofCause (.execution (.noValue id))) ∧
      p.execute tensors verify ≠ .error (.ofCause (.execution (.neverComputed id)))

theorem covers_bindInputs {tensors : List (Tensor α)} {start : SymbolMap (Tensor α)}
    (h : p.bindInputs tensors = .ok start) : start.Covers p.inputs := by
  obtain ⟨htypes, rfl⟩ := bindInputs_eq_ok_iff.1 h
  have hlength : tensors.length = p.inputs.length := by
    simpa using (congrArg List.length htypes).symm
  have hempty : (SymbolMap.empty : SymbolMap (Tensor α)).Covers [] := nofun
  exact hempty.insertAll hlength

/-- Calls that run give values to all their outputs. -/
theorem covers_evalNodes {verify : Bool} {known : List SymbolId} {nodes : List (Node α)}
    (hclosed : Node.Closed known nodes) {values values' : SymbolMap (Tensor α)}
    (hvalues : values.Covers known) (h : evalNodes verify nodes values = .ok values') :
    values'.Covers (known ++ nodes.flatMap (·.outputs)) := by
  rcases @evalNodes_of_covers α verify known nodes hclosed values hvalues with
    ⟨values'', hrun, hcovers⟩ | ⟨e, -, -, -, hrun, -⟩
  · obtain rfl := Except.ok.inj (hrun.symm.trans h)
    exact hcovers
  · exact nomatch hrun.symm.trans h

namespace Closed

/-- The operands of a call are among what the calls before it have declared. -/
theorem reads (h : p.Closed) {verify : Bool} {tensors : List (Tensor α)}
    {start values : SymbolMap (Tensor α)} {before after : List (Node α)} {n : Node α}
    (hstart : p.bindInputs tensors = .ok start) (hnodes : p.nodes = before ++ n :: after)
    (hvalues : evalNodes verify before start = .ok values) :
    ∃ xs, n.inputs.mapM (operandOf values) = .ok xs := by
  have hclosed := hnodes ▸ h.1
  obtain ⟨hbefore, hrest⟩ := (Node.closed_append _ _ _).1 hclosed
  have hcovers := covers_evalNodes hbefore (covers_bindInputs hstart) hvalues
  obtain ⟨xs, hxs⟩ := hcovers.exists_operands (Node.closed_cons.1 hrest).1
  exact ⟨xs, operands_eq_ok_iff.2 hxs⟩

theorem returns (h : p.Closed) {verify : Bool} {tensors : List (Tensor α)}
    {start values : SymbolMap (Tensor α)} (hstart : p.bindInputs tensors = .ok start)
    (hvalues : evalNodes verify p.nodes start = .ok values) :
    ∃ outs, p.outputValues values = .ok outs := by
  have hcovers := covers_evalNodes h.1 (covers_bindInputs hstart) hvalues
  obtain ⟨outs, houts⟩ := SymbolMap.Covers.exists_map fun id hid => hcovers id (h.2 id hid)
  exact ⟨outs, outputValues_eq_ok_iff.2 houts⟩

/-- A run of a closed program does not end with a missing value, on any tensors. -/
theorem notLookup_execute (h : p.Closed) (tensors : List (Tensor α)) (verify : Bool) :
    Ends NotLookup (p.execute tensors verify) fun _ => True := by
  rw [execute_eq]
  refine (p.notLookup_bindInputs tensors).bind fun start hstart _ => ?_
  rw [ends_bind]
  rcases @evalNodes_of_covers α verify _ _ h.1 _ (covers_bindInputs hstart) with
    ⟨values, hrun, -⟩ | ⟨e, n, -, xs, hrun, hcompute⟩
  · obtain ⟨outs, houts⟩ := h.returns hstart hrun
    rw [hrun, ends_ok, houts]
    trivial
  · have hfailure := notLookup_computeNode verify n xs
    rw [hcompute] at hfailure
    rw [hrun]
    exact hfailure

/-- A closed program whose inputs and outputs of calls lie within the table is served. -/
theorem served (h : p.Closed)
    (hbound : ∀ id ∈ p.inputs ++ p.nodes.flatMap (·.outputs), id.index < p.symbols.length) :
    p.Served where
  inputs id hid := hbound id (List.mem_append_left _ hid)
  operands n hn id hid := by
    obtain ⟨before, after, hnodes⟩ := List.append_of_mem hn
    have hclosed := hnodes ▸ h.1
    have hread := (Node.closed_cons.1 ((Node.closed_append _ _ _).1 hclosed).2).1 id hid
    refine hbound id ?_
    rcases List.mem_append.1 hread with hinput | houtput
    · exact List.mem_append_left _ hinput
    · rw [hnodes, List.flatMap_append]
      exact List.mem_append_right _ (List.mem_append_left _ houtput)
  results n hn id hid := hbound id (List.mem_append_right _ (List.mem_flatMap.2 ⟨n, hn, hid⟩))
  outputs id hid := hbound id (h.2 id hid)
  bind tensors e :=
    (reports_bindInputs (fun id hid => hbound id (List.mem_append_left _ hid)) tensors).ne_panic e
  reads verify tensors start before n after values hstart hnodes hvalues :=
    h.reads hstart hnodes hvalues
  returns verify tensors start values hstart hvalues := h.returns hstart hvalues
  execute tensors verify id := by
    have hends := h.notLookup_execute tensors verify
    constructor
    · intro heq
      rw [heq] at hends
      exact hends ⟨id, .inl rfl⟩
    · intro heq
      rw [heq] at hends
      exact hends ⟨id, .inr rfl⟩

end Closed

end Trace

end TraceSubstitution
