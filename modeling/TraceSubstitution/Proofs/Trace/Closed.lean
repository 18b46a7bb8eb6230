import TraceSubstitution.Proofs.Trace.Recorded
import TraceSubstitution.Proofs.Trace.Values

/-!
# Runs of closed programs

In a closed program every operand has a value when its call runs, and so has every
output in the end. A run on tensors of the declared types can therefore fail in an
operator only (`Trace.Closed.exists_of_execute_error`).
-/

namespace TraceSubstitution

/-- All symbols of a list have values. -/
def SymbolMap.Covers {β : Type*} (m : SymbolMap β) (ids : List SymbolId) : Prop :=
  ∀ id ∈ ids, ∃ x, m.get? id = some x

namespace SymbolMap.Covers

variable {β : Type*} {m : SymbolMap β} {known : List SymbolId}

theorem insert (h : m.Covers known) (id : SymbolId) (x : β) :
    (m.insert id x).Covers (known ++ [id]) := by
  intro other hother
  rw [get?_insert]
  split
  · exact ⟨x, rfl⟩
  · next hne =>
    rcases List.mem_append.1 hother with hother | hother
    · exact h other hother
    · exact absurd (List.mem_singleton.1 hother) hne

theorem insertAll (h : m.Covers known) {ids : List SymbolId} {xs : List β}
    (hlength : xs.length = ids.length) : (m.insertAll ids xs).Covers (known ++ ids) := by
  induction ids generalizing m known xs with
  | nil => exact (List.append_nil known).symm ▸ h
  | cons id ids ih =>
    cases xs with
    | nil => exact nomatch hlength
    | cons x xs =>
      have hrest := ih (h.insert id x) (Nat.succ.inj hlength)
      rwa [List.append_assoc] at hrest

theorem exists_map {ids : List SymbolId} (h : m.Covers ids) :
    ∃ xs : List β, ids.map m.get? = xs.map some := by
  induction ids with
  | nil => exact ⟨[], rfl⟩
  | cons id ids ih =>
    obtain ⟨hid, hids⟩ := List.forall_mem_cons.1 h
    obtain ⟨x, hx⟩ := hid
    obtain ⟨xs, hxs⟩ := ih hids
    exact ⟨x :: xs, by rw [List.map_cons, List.map_cons, hx, hxs]⟩

theorem exists_operands {ids : List (Option SymbolId)} (h : ∀ id, some id ∈ ids → id ∈ known)
    (hm : m.Covers known) : ∃ xs : List (Option β), ids.map (·.map m.get?) = xs.map (·.map some) := by
  induction ids with
  | nil => exact ⟨[], rfl⟩
  | cons id ids ih =>
    obtain ⟨xs, hxs⟩ := ih fun other hother => h other (List.mem_cons_of_mem id hother)
    cases id with
    | none => exact ⟨none :: xs, congrArg (none :: ·) hxs⟩
    | some id =>
      obtain ⟨x, hx⟩ := hm id (h id List.mem_cons_self)
      exact ⟨some x :: xs, by simp only [List.map_cons, Option.map_some, hx, hxs]⟩

end SymbolMap.Covers

namespace Trace

variable {α : Type} {verify : Bool} {known : List SymbolId}

theorem length_of_computeNode {n : Node α} {xs : List (Option (Tensor α))}
    {outputs : List (Tensor α)} (h : computeNode verify n xs = .ok outputs) :
    outputs.length = n.outputs.length := by
  unfold computeNode at h
  cases verify with
  | true =>
    obtain ⟨ys, -, h⟩ := bind_eq_ok_iff.1 h
    obtain ⟨hlength, hys⟩ := check_bind_eq_ok_iff.1 h
    exact Except.ok.inj hys ▸ of_decide_eq_true (ensure_eq_ok_iff.1 hlength)
  | false =>
    obtain ⟨ys, -, h⟩ := bind_eq_ok_iff.1 h
    obtain ⟨hlength, hys⟩ := check_bind_eq_ok_iff.1 h
    exact Except.ok.inj hys ▸ of_decide_eq_true (ensure_eq_ok_iff.1 hlength)

/-- A run returns one tensor for every output. -/
theorem length_of_execute {t : Trace α} {tensors outs : List (Tensor α)}
    (h : t.execute tensors verify = .ok outs) : outs.length = t.outputs.length := by
  obtain ⟨values, -, -, houts⟩ := execute_eq_ok_iff.1 h
  simpa using (congrArg List.length (outputValues_eq_ok_iff.1 houts)).symm

/-- A call whose operands have values: its outputs get values, unless the operator fails. -/
theorem evalNode_of_covers {values : SymbolMap (Tensor α)} (hvalues : values.Covers known)
    {n : Node α} (hn : ∀ id, some id ∈ n.inputs → id ∈ known) :
    (∃ values', evalNode verify values n = .ok values' ∧ values'.Covers (known ++ n.outputs)) ∨
      ∃ e xs, evalNode verify values n = .error e ∧ computeNode verify n xs = .error e := by
  obtain ⟨xs, hxs⟩ := hvalues.exists_operands hn
  have hoperands : n.inputs.mapM (operandOf values) = .ok xs := operands_eq_ok_iff.2 hxs
  unfold evalNode
  rw [hoperands, ok_bind]
  cases hrun : computeNode verify n xs with
  | error e => exact .inr ⟨e, xs, rfl, hrun⟩
  | ok outputs => exact .inl ⟨_, rfl, hvalues.insertAll (length_of_computeNode hrun)⟩

/-- Calls that read what is known or an output of an earlier one: all outputs get values, unless an
operator fails. -/
theorem evalNodes_of_covers {nodes : List (Node α)} (hclosed : Node.Closed known nodes)
    {values : SymbolMap (Tensor α)} (hvalues : values.Covers known) :
    (∃ values', evalNodes verify nodes values = .ok values' ∧
        values'.Covers (known ++ nodes.flatMap (·.outputs))) ∨
      ∃ e, ∃ n ∈ nodes, ∃ xs, evalNodes verify nodes values = .error e ∧
        computeNode verify n xs = .error e := by
  induction nodes generalizing known values with
  | nil => exact .inl ⟨values, rfl, (List.append_nil known).symm ▸ hvalues⟩
  | cons n nodes ih =>
    obtain ⟨hn, hnodes⟩ := Node.closed_cons.1 hclosed
    rw [evalNodes_cons]
    rcases evalNode_of_covers hvalues hn with ⟨values₁, hnode, h₁⟩ | ⟨e, xs, hnode, hrun⟩
    · rw [hnode, ok_bind, List.flatMap_cons, ← List.append_assoc]
      refine (ih hnodes h₁).imp_right fun ⟨e, m, hm, xs, hrest⟩ => ?_
      exact ⟨e, m, List.mem_cons_of_mem n hm, xs, hrest⟩
    · rw [hnode, error_bind]
      exact .inr ⟨e, n, List.mem_cons_self, xs, rfl, hrun⟩

/-- A run of a closed program on tensors of the declared types fails in an operator only. -/
theorem Closed.exists_of_execute_error {t : Trace α} (h : t.Closed) {tensors : List (Tensor α)}
    (htypes : t.inputs.map t.typeOf? = tensors.map (some ·.type)) {e : Failure}
    (herror : t.execute tensors verify = .error e) :
    ∃ n ∈ t.nodes, ∃ xs, computeNode verify n xs = .error e := by
  have hinputs := bindInputs_eq_ok_iff.2 ⟨htypes, rfl⟩
  have hlength : tensors.length = t.inputs.length := by
    simpa using (congrArg List.length htypes).symm
  have hempty : (SymbolMap.empty : SymbolMap (Tensor α)).Covers [] := nofun
  rw [execute_eq, hinputs, ok_bind] at herror
  rcases evalNodes_of_covers h.1 (hempty.insertAll hlength) with
    ⟨values, hnodes, hvalues⟩ | ⟨e', n, hn, xs, hnodes, hrun⟩
  · obtain ⟨outs, houts⟩ := SymbolMap.Covers.exists_map fun id hid => hvalues id (h.2 id hid)
    rw [hnodes, ok_bind, outputValues_eq_ok_iff.2 houts] at herror
    exact nomatch herror
  · rw [hnodes, error_bind] at herror
    exact ⟨n, hn, xs, Except.error.inj herror ▸ hrun⟩

end Trace

end TraceSubstitution
