import Mathlib.Data.List.Nodup
import Mathlib.Data.Set.Function
import TraceSubstitution.Proofs.Trace.Closed

/-!
# Programs under other numbers

The numbers of symbols do not matter to what a program computes. If a program
begins as another one does under other numbers (`Trace.Continues`), its inputs
begin with those of the other program, and so do its outputs: it fails where the
other one fails, and its first outputs are the same tensors, whatever the inputs
are that come after them (`Trace.Continues.outputs_eq_append`).
-/

namespace TraceSubstitution

variable {α : Type}

/-- The call with other numbers for its symbols. -/
def Node.renumber (σ : SymbolId → SymbolId) (n : Node α) : Node α :=
  { n with inputs := n.inputs.map (·.map σ), outputs := n.outputs.map σ }

namespace Node

variable {σ τ : SymbolId → SymbolId} {n : Node α} {nodes : List (Node α)}

/-- Only the numbers of the symbols that a call mentions matter. -/
theorem renumber_congr (hinputs : ∀ id, some id ∈ n.inputs → σ id = τ id)
    (houtputs : ∀ id ∈ n.outputs, σ id = τ id) : n.renumber σ = n.renumber τ := by
  have hread : n.inputs.map (·.map σ) = n.inputs.map (·.map τ) := by
    refine List.map_congr_left fun x hx => ?_
    cases x with
    | none => rfl
    | some id => exact congrArg some (hinputs id hx)
  unfold renumber
  rw [hread, List.map_congr_left houtputs]

theorem flatMap_outputs_renumber (σ : SymbolId → SymbolId) (nodes : List (Node α)) :
    (nodes.map (·.renumber σ)).flatMap (·.outputs) = (nodes.flatMap (·.outputs)).map σ := by
  rw [List.flatMap_map, List.map_flatMap]
  rfl

/-- Only the numbers of the symbols that are known matter to closed calls. -/
theorem Closed.map_renumber_congr {known : List SymbolId} (h : Closed known nodes)
    (hsame : ∀ id ∈ known ++ nodes.flatMap (·.outputs), σ id = τ id) :
    nodes.map (·.renumber σ) = nodes.map (·.renumber τ) := by
  induction nodes generalizing known with
  | nil => rfl
  | cons n nodes ih =>
    obtain ⟨hn, hnodes⟩ := closed_cons.1 h
    rw [List.flatMap_cons, ← List.append_assoc] at hsame
    rw [List.map_cons, List.map_cons, ih hnodes hsame]
    refine congrArg (· :: _) (renumber_congr (fun id hid => ?_) fun id hid => ?_)
    · exact hsame id (List.mem_append_left _ (List.mem_append_left _ (hn id hid)))
    · exact hsame id (List.mem_append_left _ (List.mem_append_right _ hid))

end Node

theorem SymbolMap.insertAll_append {β : Type*} (m : SymbolMap β) {ids more : List SymbolId}
    {xs ys : List β} (hlength : xs.length = ids.length) :
    m.insertAll (ids ++ more) (xs ++ ys) = (m.insertAll ids xs).insertAll more ys := by
  induction ids generalizing m xs with
  | nil =>
    rw [List.eq_nil_of_length_eq_zero hlength, List.nil_append, List.nil_append, insertAll_nil]
  | cons id ids ih =>
    cases xs with
    | nil => exact nomatch hlength
    | cons x xs => exact ih (m.insert id x) (Nat.succ.inj hlength)

/-- The program under way has the given inputs and calls, under the numbers that `σ` gives to their
symbols. -/
structure Tracer.Renumbers (σ : SymbolId → SymbolId) (inputs : List SymbolId)
    (nodes : List (Node α)) (t : Tracer α) : Prop where
  inputs : t.inputs = inputs.map σ
  nodes : t.nodes = nodes.map (·.renumber σ)

/-- One call more on both sides: its outputs get the numbers that they have in the program, and all
other symbols keep theirs. -/
theorem Tracer.Renumbers.call {σ : SymbolId → SymbolId} {inputs : List SymbolId}
    {nodes : List (Node α)} {t t' : Tracer α} (h : t.Renumbers σ inputs nodes)
    (hclosed : Node.Closed inputs nodes) {n m : Node α}
    (hreads : ∀ id, some id ∈ n.inputs → id ∈ inputs ++ nodes.flatMap (·.outputs))
    (hfresh : ∀ id ∈ n.outputs, id ∉ inputs ++ nodes.flatMap (·.outputs))
    (hnodup : n.outputs.Nodup) (hop : m.op = n.op) (hattrs : m.attrs = n.attrs)
    (hinputs : m.inputs = n.inputs.map (·.map σ)) (hlength : n.outputs.length = m.outputs.length)
    (htracer : t'.inputs = t.inputs) (hnodes : t'.nodes = t.nodes ++ [m]) :
    ∃ τ, t'.Renumbers τ inputs (nodes ++ [n]) ∧ n.outputs.map τ = m.outputs ∧
      ∀ id ∈ inputs ++ nodes.flatMap (·.outputs), τ id = σ id := by
  let τ (id : SymbolId) : SymbolId :=
    ((SymbolMap.empty.insertAll n.outputs m.outputs).get? id).getD (σ id)
  have hsame : ∀ id ∈ inputs ++ nodes.flatMap (·.outputs), τ id = σ id := by
    intro id hid
    change Option.getD _ _ = _
    rw [SymbolMap.get?_insertAll_of_notMem fun hmem => hfresh id hmem hid]
    rfl
  have houtputs : n.outputs.map τ = m.outputs := by
    have hget := SymbolMap.map_get?_insertAll hnodup hlength SymbolMap.empty
    refine List.map_injective_iff.2 (Option.some_injective _) ?_
    rw [← hget, List.map_map]
    refine List.map_congr_left fun id hid => ?_
    obtain ⟨x, -, hx⟩ := List.mem_map.1 (hget ▸ List.mem_map_of_mem hid)
    change some (Option.getD _ _) = _
    rw [← hx, Option.getD_some]
  have hcall : n.renumber τ = m := by
    have hread : n.inputs.map (·.map τ) = n.inputs.map (·.map σ) := by
      refine List.map_congr_left fun x hx => ?_
      cases x with
      | none => rfl
      | some id => exact congrArg some (hsame id (hreads id hx))
    unfold Node.renumber
    rw [hread, houtputs, ← hinputs, ← hop, ← hattrs]
  refine ⟨τ, ⟨?_, ?_⟩, houtputs, hsame⟩
  · rw [htracer, h.inputs]
    exact (List.map_congr_left fun id hid => hsame id (List.mem_append_left _ hid)).symm
  · rw [hnodes, h.nodes, List.map_append, List.map_singleton, hcall,
      hclosed.map_renumber_congr hsame]

/-- Under their other numbers the known symbols have the same values. -/
def SymbolMap.Carries {β : Type*} (σ : SymbolId → SymbolId) (known : List SymbolId)
    (m m' : SymbolMap β) : Prop :=
  ∀ id ∈ known, m'.get? (σ id) = m.get? id

namespace SymbolMap.Carries

variable {β : Type*} {σ : SymbolId → SymbolId} {known : List SymbolId} {m m' : SymbolMap β}

theorem insert (h : Carries σ known m m') {id : SymbolId}
    (hinj : Set.InjOn σ {x | x ∈ known ++ [id]}) (x : β) :
    Carries σ (known ++ [id]) (m.insert id x) (m'.insert (σ id) x) := by
  intro other hother
  have hid : id ∈ known ++ [id] := List.mem_append_right known (List.mem_singleton_self id)
  rw [get?_insert, get?_insert]
  by_cases heq : other = id
  · rw [if_pos heq, if_pos (congrArg σ heq)]
  · rw [if_neg heq, if_neg fun hsame => heq (hinj hother hid hsame)]
    rcases List.mem_append.1 hother with hknown | hnew
    · exact h other hknown
    · exact absurd (List.mem_singleton.1 hnew) heq

theorem insertAll (h : Carries σ known m m') {ids : List SymbolId}
    (hinj : Set.InjOn σ {x | x ∈ known ++ ids}) {xs : List β} (hlength : xs.length = ids.length) :
    Carries σ (known ++ ids) (m.insertAll ids xs) (m'.insertAll (ids.map σ) xs) := by
  induction ids generalizing m m' known xs with
  | nil => exact (List.append_nil known).symm ▸ h
  | cons id ids ih =>
    cases xs with
    | nil => exact nomatch hlength
    | cons x xs =>
      have hsplit : known ++ id :: ids = known ++ [id] ++ ids := by
        rw [List.append_assoc, List.singleton_append]
      rw [hsplit] at hinj ⊢
      have hfirst := h.insert (hinj.mono fun y hy => List.mem_append_left ids hy) x
      exact ih hfirst hinj (Nat.succ.inj hlength)

/-- Operands are read in the same way under their other numbers. -/
theorem map_inputs (h : Carries σ known m m') {ids : List (Option SymbolId)}
    (hids : ∀ id, some id ∈ ids → id ∈ known) :
    (ids.map (·.map σ)).map (·.map m'.get?) = ids.map (·.map m.get?) := by
  rw [List.map_map]
  refine List.map_congr_left fun x hx => ?_
  cases x with
  | none => rfl
  | some id => exact congrArg some (h id (hids id hx))

theorem map_get? (h : Carries σ known m m') {ids : List SymbolId} (hids : ids ⊆ known) :
    (ids.map σ).map m'.get? = ids.map m.get? := by
  rw [List.map_map]
  exact List.map_congr_left fun id hid => h id (hids hid)

end SymbolMap.Carries

namespace Trace

variable {σ : SymbolId → SymbolId} {known : List SymbolId} {n : Node α} {nodes : List (Node α)}
  {values values' : SymbolMap (Tensor α)} {verify : Bool}

/-- A call under other numbers fails as the call does, or gives its outputs the same values. -/
theorem evalNode_renumber (verify : Bool) (h : SymbolMap.Carries σ known values values')
    (hvalues : values.Covers known) (hn : ∀ id, some id ∈ n.inputs → id ∈ known)
    (hinj : Set.InjOn σ {x | x ∈ known ++ n.outputs}) :
    (∃ e, evalNode verify values n = .error e ∧
      evalNode verify values' (n.renumber σ) = .error e) ∨
    ∃ more more', evalNode verify values n = .ok more ∧
      evalNode verify values' (n.renumber σ) = .ok more' ∧ more.Covers (known ++ n.outputs) ∧
        SymbolMap.Carries σ (known ++ n.outputs) more more' := by
  obtain ⟨xs, hxs⟩ := hvalues.exists_operands hn
  have hoperands : n.inputs.mapM (operandOf values) = .ok xs := operands_eq_ok_iff.2 hxs
  have hoperands' : (n.renumber σ).inputs.mapM (operandOf values') = .ok xs :=
    operands_eq_ok_iff.2 ((h.map_inputs hn).trans hxs)
  have hcompute : computeNode verify (n.renumber σ) xs = computeNode verify n xs := by
    unfold computeNode Node.renumber
    rw [List.length_map]
  unfold evalNode
  rw [hoperands, hoperands', ok_bind, ok_bind, hcompute]
  cases hrun : computeNode verify n xs with
  | error e => exact .inl ⟨e, rfl, rfl⟩
  | ok outputs =>
    have hlength := length_of_computeNode hrun
    exact .inr ⟨_, _, rfl, rfl, hvalues.insertAll hlength, h.insertAll hinj hlength⟩

/-- Calls under other numbers fail as the calls do, or give their outputs the same values. -/
theorem evalNodes_renumber (verify : Bool) (h : SymbolMap.Carries σ known values values')
    (hvalues : values.Covers known) (hclosed : Node.Closed known nodes)
    (hinj : Set.InjOn σ {x | x ∈ known ++ nodes.flatMap (·.outputs)}) :
    (∃ e, evalNodes verify nodes values = .error e ∧
      evalNodes verify (nodes.map (·.renumber σ)) values' = .error e) ∨
    ∃ more more', evalNodes verify nodes values = .ok more ∧
      evalNodes verify (nodes.map (·.renumber σ)) values' = .ok more' ∧
        more.Covers (known ++ nodes.flatMap (·.outputs)) ∧
          SymbolMap.Carries σ (known ++ nodes.flatMap (·.outputs)) more more' := by
  induction nodes generalizing known values values' with
  | nil =>
    rw [List.flatMap_nil, List.append_nil]
    exact .inr ⟨values, values', rfl, rfl, hvalues, h⟩
  | cons n nodes ih =>
    obtain ⟨hn, hnodes⟩ := Node.closed_cons.1 hclosed
    rw [List.flatMap_cons, ← List.append_assoc] at hinj ⊢
    rw [List.map_cons, evalNodes_cons, evalNodes_cons]
    rcases evalNode_renumber verify h hvalues hn (hinj.mono fun x hx => List.mem_append_left _ hx)
      with ⟨e, hfirst, hfirst'⟩ | ⟨values₁, values₁', hfirst, hfirst', hvalues₁, h₁⟩
    · rw [hfirst, hfirst', error_bind, error_bind]
      exact .inl ⟨e, rfl, rfl⟩
    · rw [hfirst, hfirst', ok_bind, ok_bind]
      exact ih h₁ hvalues₁ hnodes hinj

/-- The program begins as another one does, under the numbers that `σ` gives to its symbols: it may
have more inputs, more calls and more outputs after those of the other program. -/
structure Continues (u t : Trace α) (σ : SymbolId → SymbolId) (inputs : List SymbolId)
    (calls : List (Node α)) (outputs : List SymbolId) : Prop where
  inputs : u.inputs = t.inputs.map σ ++ inputs
  nodes : u.nodes = t.nodes.map (·.renumber σ) ++ calls
  outputs : u.outputs = t.outputs.map σ ++ outputs
  once : (u.inputs ++ u.nodes.flatMap (·.outputs)).Nodup

namespace Continues

variable {u t : Trace α} {inputs outputs : List SymbolId} {calls : List (Node α)}
  {tensors more : List (Tensor α)}

theorem nodup (h : u.Continues t σ inputs calls outputs) :
    ((t.inputs.map σ ++ inputs) ++
      ((t.nodes.flatMap (·.outputs)).map σ ++ calls.flatMap (·.outputs))).Nodup := by
  have honce := h.once
  rwa [h.inputs, h.nodes, List.flatMap_append, Node.flatMap_outputs_renumber] at honce

/-- Different symbols have different numbers. -/
theorem injOn (h : u.Continues t σ inputs calls outputs) :
    Set.InjOn σ {id | id ∈ t.inputs ++ t.nodes.flatMap (·.outputs)} := by
  have hsub := (List.sublist_append_left (t.inputs.map σ) inputs).append
    (List.sublist_append_left ((t.nodes.flatMap (·.outputs)).map σ) (calls.flatMap (·.outputs)))
  have hnodup := h.nodup.sublist hsub
  rw [← List.map_append] at hnodup
  exact fun x hx y hy heq => List.inj_on_of_nodup_map hnodup hx hy heq

/-- What comes after is not under these numbers. -/
theorem notMem (h : u.Continues t σ inputs calls outputs) {id : SymbolId}
    (hid : id ∈ t.inputs ++ t.nodes.flatMap (·.outputs)) :
    (id ∈ t.inputs → σ id ∉ inputs) ∧ ∀ n ∈ calls, σ id ∉ n.outputs := by
  obtain ⟨hinputs, hcalls, hdisjoint⟩ := List.nodup_append.1 h.nodup
  refine ⟨fun hinput hmem => ?_, fun n hn hmem => ?_⟩
  · exact (List.nodup_append.1 hinputs).2.2 _ (List.mem_map_of_mem hinput) _ hmem rfl
  · have hlater : σ id ∈ calls.flatMap (·.outputs) := List.mem_flatMap.2 ⟨n, hn, hmem⟩
    rcases List.mem_append.1 hid with hid | hid
    · exact hdisjoint _ (List.mem_append_left _ (List.mem_map_of_mem hid)) _
        (List.mem_append_right _ hlater) rfl
    · exact (List.nodup_append.1 hcalls).2.2 _ (List.mem_map_of_mem hid) _ hlater rfl

/-- The inputs have the same values, whatever is given to the inputs after them. -/
theorem carries_inputs (h : u.Continues t σ inputs calls outputs)
    (hlength : tensors.length = t.inputs.length) (more : List (Tensor α)) :
    SymbolMap.Carries σ t.inputs (SymbolMap.empty.insertAll t.inputs tensors)
      (SymbolMap.empty.insertAll u.inputs (tensors ++ more)) := by
  have hnone : SymbolMap.Carries σ [] (.empty : SymbolMap (Tensor α)) .empty := fun _ hid =>
    absurd hid List.not_mem_nil
  have hown := hnone.insertAll (h.injOn.mono fun x hx => List.mem_append_left _ hx) hlength
  intro id hid
  rw [h.inputs, SymbolMap.insertAll_append _ (hlength.trans (List.length_map σ).symm),
    SymbolMap.get?_insertAll_of_notMem ((h.notMem (List.mem_append_left _ hid)).1 hid)]
  exact hown id hid

/-- Both programs fail in the same way, or the first outputs are those of the other program,
whatever the inputs are that come after. -/
theorem outputs_eq_append (h : u.Continues t σ inputs calls outputs) (hclosed : t.Closed)
    (htensors : t.inputs.map t.typeOf? = tensors.map (some ·.type))
    (hmore : u.inputs.map u.typeOf? = (tensors ++ more).map (some ·.type)) (verify : Bool) :
    (∃ e, t.execute tensors verify = .error e ∧ u.execute (tensors ++ more) verify = .error e) ∨
    ∃ outs, t.execute tensors verify = .ok outs ∧
      (∀ all, u.execute (tensors ++ more) verify = .ok all →
        ∃ rest, all = outs ++ rest ∧ rest.length = outputs.length) ∧
      (calls = [] → outputs = [] → u.execute (tensors ++ more) verify = .ok outs) := by
  have hlength : tensors.length = t.inputs.length := by
    simpa using (congrArg List.length htensors).symm
  have hnone : (SymbolMap.empty : SymbolMap (Tensor α)).Covers [] := nofun
  rw [execute_eq, execute_eq, bindInputs_eq_ok_iff.2 ⟨htensors, rfl⟩,
    bindInputs_eq_ok_iff.2 ⟨hmore, rfl⟩, ok_bind, ok_bind, h.nodes, evalNodes_append]
  rcases evalNodes_renumber verify (h.carries_inputs hlength more) (hnone.insertAll hlength)
    hclosed.1 h.injOn with ⟨e, hrun, hrun'⟩ | ⟨values, values', hrun, hrun', hvalues, hcarries⟩
  · rw [hrun, hrun', error_bind, error_bind, error_bind]
    exact .inl ⟨e, rfl, rfl⟩
  · obtain ⟨outs, houts⟩ := SymbolMap.Covers.exists_map fun id hid => hvalues id (hclosed.2 id hid)
    have hreturned : t.outputValues values = .ok outs := outputValues_eq_ok_iff.2 houts
    have hfirst := (hcarries.map_get? hclosed.2).trans houts
    rw [hrun, hrun', ok_bind, ok_bind, hreturned]
    refine .inr ⟨outs, rfl, fun all hall => ?_, ?_⟩
    · obtain ⟨final, hcalls, hfinal⟩ := bind_eq_ok_iff.1 hall
      have hvaluesOf := outputValues_eq_ok_iff.1 hfinal
      -- The calls that come after leave the values of the first outputs alone.
      have hkept : (t.outputs.map σ).map final.get? = (t.outputs.map σ).map values'.get? := by
        refine List.map_congr_left fun x hx => ?_
        obtain ⟨id, hid, rfl⟩ := List.mem_map.1 hx
        exact get?_evalNodes hcalls (h.notMem (hclosed.2 id hid)).2
      rw [h.outputs, List.map_append, hkept, hfirst] at hvaluesOf
      obtain ⟨first, rest, rfl, hfirst', hrest⟩ := List.append_eq_map_iff.1 hvaluesOf
      obtain rfl : first = outs := List.map_injective_iff.2 (Option.some_injective _) hfirst'
      refine ⟨rest, rfl, ?_⟩
      simpa using congrArg List.length hrest
    · rintro rfl rfl
      rw [evalNodes_nil, ok_bind]
      refine outputValues_eq_ok_iff.2 ?_
      rw [h.outputs, List.append_nil, hfirst]

end Continues

end Trace

end TraceSubstitution
