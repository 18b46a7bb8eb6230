import Mathlib.Algebra.Group.Defs
import TraceSubstitution.Proofs.Gradient.Sum
import TraceSubstitution.Proofs.Trace.Closed

/-!
# Programs of sums

A program that consists of sums and zeros has a reading in every commutative
monoid: `core::add` is its addition, and `core::zeros_like` gives its zero
(`Trace.read?`). If the program is closed and gives every symbol a value once, then
all calls hold at once of the values that its symbols have in the end
(`Trace.exists_values`).
-/

namespace TraceSubstitution

theorem SymbolMap.mapM_get? {β : Type*} {m : SymbolMap β} {v : SymbolId → β}
    {ids : List SymbolId} (h : ∀ id ∈ ids, m.get? id = some (v id)) :
    ids.mapM m.get? = some (ids.map v) := by
  induction ids with
  | nil => rfl
  | cons id ids ih =>
    obtain ⟨hid, hids⟩ := List.forall_mem_cons.1 h
    rw [List.mapM_cons, hid, ih hids]
    rfl

variable {α : Type} [Scalar α] {M : Type*} [AddCommMonoid M]

/-- The outputs of a sum or of zeros in a monoid. -/
def Node.meaning? (n : Node α) (xs : List (Option M)) : Option (List M) :=
  if n.op.operator.id = (Core.add : Operator α).id then
    match xs with
    | [some x, some y] => some [x + y]
    | _ => none
  else if n.op.operator.id = (Core.zerosLike : Operator α).id then
    match xs with
    | [some _] => some [0]
    | _ => none
  else none

/-- The elements of a monoid after one call. -/
def Node.read? (values : SymbolMap M) (n : Node α) : Option (SymbolMap M) := do
  let xs ← n.inputs.mapM fun
    | some id => (values.get? id).map some
    | none => some none
  let ys ← n.meaning? xs
  if ys.length = n.outputs.length then some (values.insertAll n.outputs ys) else none

/-- The outputs of a program in a monoid. -/
def Trace.read? (t : Trace α) (xs : List M) : Option (List M) := do
  if xs.length ≠ t.inputs.length then none
  else
    let values ← t.nodes.foldlM Node.read? (SymbolMap.empty.insertAll t.inputs xs)
    t.outputs.mapM values.get?

namespace Node

/-- A call of `core::add` or `core::zeros_like`, with as many operands and outputs as these have. -/
def Readable (n : Node α) : Prop :=
  (∃ lhs rhs sum, n.op.operator.id = (Core.add : Operator α).id ∧
      n.inputs = [some lhs, some rhs] ∧ n.outputs = [sum]) ∨
    ∃ primal zeros, n.op.operator.id = (Core.zerosLike : Operator α).id ∧
      n.inputs = [some primal] ∧ n.outputs = [zeros]

/-- The outputs of the call have the values that they should have, given those of its operands. -/
def Holds (v : SymbolId → M) (n : Node α) : Prop :=
  n.meaning? (n.inputs.map (·.map v)) = some (n.outputs.map v)

theorem Holds.congr {n : Node α} {v w : SymbolId → M} (h : n.Holds v)
    (hinputs : ∀ id, some id ∈ n.inputs → w id = v id) (houtputs : ∀ id ∈ n.outputs, w id = v id) :
    n.Holds w := by
  have hoperands : n.inputs.map (·.map w) = n.inputs.map (·.map v) := by
    refine List.map_congr_left fun x hx => ?_
    cases x with
    | none => rfl
    | some id => exact congrArg some (hinputs id hx)
  unfold Holds
  rw [hoperands, List.map_congr_left houtputs]
  exact h

theorem meaning?_add {n : Node α} (hop : n.op.operator.id = (Core.add : Operator α).id) (x y : M) :
    n.meaning? [some x, some y] = some [x + y] := if_pos hop

theorem meaning?_zerosLike {n : Node α} (hop : n.op.operator.id = (Core.zerosLike : Operator α).id)
    (x : M) : n.meaning? [some x] = some [0] := by
  have hne : n.op.operator.id ≠ (Core.add : Operator α).id := by
    rw [hop]
    exact fun heq => absurd (OperatorId.mk.inj heq) (by decide)
  exact (if_neg hne).trans (if_pos hop)

theorem holds_add_iff {v : SymbolId → M} {n : Node α} {lhs rhs sum : SymbolId}
    (hop : n.op.operator.id = (Core.add : Operator α).id) (hinputs : n.inputs = [some lhs, some rhs])
    (houtputs : n.outputs = [sum]) : n.Holds v ↔ v sum = v lhs + v rhs := by
  unfold Holds
  rw [hinputs, houtputs]
  change n.meaning? [some (v lhs), some (v rhs)] = some [v sum] ↔ _
  rw [meaning?_add hop, Option.some_inj, List.cons_eq_cons, and_iff_left rfl, eq_comm]

theorem holds_zerosLike_iff {v : SymbolId → M} {n : Node α} {primal zeros : SymbolId}
    (hop : n.op.operator.id = (Core.zerosLike : Operator α).id) (hinputs : n.inputs = [some primal])
    (houtputs : n.outputs = [zeros]) : n.Holds v ↔ v zeros = 0 := by
  unfold Holds
  rw [hinputs, houtputs]
  change n.meaning? [some (v primal)] = some [v zeros] ↔ _
  rw [meaning?_zerosLike hop, Option.some_inj, List.cons_eq_cons, and_iff_left rfl, eq_comm]

theorem readable_of_gathers {n : Node α} (h : n.Gathers) : n.Readable := by
  rcases h with ⟨lhs, rhs, sum, rfl⟩ | ⟨primal, zeros, rfl⟩
  · exact .inl ⟨lhs, rhs, sum, rfl, rfl, rfl⟩
  · exact .inr ⟨primal, zeros, rfl, rfl, rfl⟩

/-- A readable call on known operands gives its output a value, which makes it hold. -/
theorem exists_read {n : Node α} (hn : n.Readable) {known : List SymbolId} {m : SymbolMap M}
    (hm : m.Covers known) (hreads : ∀ id, some id ∈ n.inputs → id ∈ known)
    (hfresh : ∀ id ∈ n.outputs, id ∉ known) :
    ∃ m', read? m n = some m' ∧ m'.Covers (known ++ n.outputs) ∧
      (∀ id ∈ known, m'.get? id = m.get? id) ∧ n.Holds fun id => (m'.get? id).getD 0 := by
  obtain ⟨y, s, hread, houtputs, hholds⟩ : ∃ y s, read? m n = some (m.insert s y) ∧
      n.outputs = [s] ∧ ∀ v : SymbolId → M, (∀ id ∈ known, m.get? id = some (v id)) → v s = y →
        n.Holds v := by
    rcases hn with ⟨lhs, rhs, s, hop, hinputs, houtputs⟩ | ⟨primal, s, hop, hinputs, houtputs⟩
    · rw [hinputs] at hreads
      have hlhs := hreads lhs List.mem_cons_self
      have hrhs := hreads rhs (List.mem_cons_of_mem _ List.mem_cons_self)
      obtain ⟨x, hx⟩ := hm lhs hlhs
      obtain ⟨y, hy⟩ := hm rhs hrhs
      refine ⟨x + y, s, ?_, houtputs, fun v hv hs => ?_⟩
      · unfold read?
        simp [hinputs, houtputs, hx, hy, meaning?_add hop]
      · have hvx := Option.some.inj (hx.symm.trans (hv lhs hlhs))
        have hvy := Option.some.inj (hy.symm.trans (hv rhs hrhs))
        rw [holds_add_iff hop hinputs houtputs, hs, hvx, hvy]
    · rw [hinputs] at hreads
      obtain ⟨x, hx⟩ := hm primal (hreads primal List.mem_cons_self)
      refine ⟨0, s, ?_, houtputs, fun v _ hs => ?_⟩
      · unfold read?
        simp [hinputs, houtputs, hx, meaning?_zerosLike hop]
      · rwa [holds_zerosLike_iff hop hinputs houtputs]
  rw [houtputs] at hfresh ⊢
  have hkeep : ∀ id ∈ known, (m.insert s y).get? id = m.get? id := by
    intro id hid
    rw [SymbolMap.get?_insert, if_neg]
    rintro rfl
    exact hfresh id (List.mem_singleton_self _) hid
  refine ⟨m.insert s y, hread, hm.insert s y, hkeep, hholds _ (fun id hid => ?_) ?_⟩
  · obtain ⟨x, hx⟩ := hm id hid
    rw [hkeep id hid, hx]
    rfl
  · rw [SymbolMap.get?_insert, if_pos rfl]
    rfl

/-- Readable calls in order: in the end all of them hold. -/
theorem exists_read_all {nodes : List (Node α)} (hnodes : ∀ n ∈ nodes, n.Readable)
    {known : List SymbolId} (hclosed : Closed known nodes)
    (honce : (known ++ nodes.flatMap (·.outputs)).Nodup) {m : SymbolMap M} (hm : m.Covers known) :
    ∃ m', nodes.foldlM read? m = some m' ∧ m'.Covers (known ++ nodes.flatMap (·.outputs)) ∧
      (∀ id ∈ known, m'.get? id = m.get? id) ∧
      ∀ n ∈ nodes, n.Holds fun id => (m'.get? id).getD 0 := by
  induction nodes generalizing known m with
  | nil => exact ⟨m, rfl, (List.append_nil known).symm ▸ hm, fun _ _ => rfl, nofun⟩
  | cons n nodes ih =>
    obtain ⟨hn, hnodes⟩ := List.forall_mem_cons.1 hnodes
    obtain ⟨hreads, hclosed⟩ := closed_cons.1 hclosed
    rw [List.flatMap_cons] at honce ⊢
    have hfresh : ∀ id ∈ n.outputs, id ∉ known := fun id hid hknown =>
      (List.nodup_append.1 honce).2.2 id hknown id (List.mem_append_left _ hid) rfl
    rw [← List.append_assoc] at honce ⊢
    obtain ⟨m₁, hone, h₁, hsame₁, hholds⟩ := exists_read hn hm hreads hfresh
    obtain ⟨m', hrest, h', hsame, hall⟩ := ih hnodes hclosed honce h₁
    refine ⟨m', ?_, h', fun id hid => ?_, List.forall_mem_cons.2 ⟨?_, hall⟩⟩
    · rw [List.foldlM_cons, hone]
      exact hrest
    · rw [hsame id (List.mem_append_left _ hid), hsame₁ id hid]
    · refine hholds.congr (fun id hid => ?_) fun id hid => ?_
      · rw [hsame id (List.mem_append_left _ (hreads id hid))]
      · rw [hsame id (List.mem_append_right _ hid)]

end Node

namespace Trace

/-- A closed program of sums and zeros has a reading, and all calls hold of the values that its
symbols have in the end. -/
theorem exists_values {t : Trace α} (hnodes : ∀ n ∈ t.nodes, n.Readable) (hclosed : t.Closed)
    (honce : (t.inputs ++ t.nodes.flatMap (·.outputs)).Nodup) {xs : List M}
    (hlength : xs.length = t.inputs.length) :
    ∃ v : SymbolId → M, t.read? xs = some (t.outputs.map v) ∧ t.inputs.map v = xs ∧
      ∀ n ∈ t.nodes, n.Holds v := by
  have hempty : (SymbolMap.empty : SymbolMap M).Covers [] := nofun
  have hcovers := hempty.insertAll hlength
  rw [List.nil_append] at hcovers
  obtain ⟨m, hread, hm, hsame, hholds⟩ := Node.exists_read_all hnodes hclosed.1 honce hcovers
  have hget : ∀ id ∈ t.inputs ++ t.nodes.flatMap (·.outputs),
      m.get? id = some ((m.get? id).getD 0) := by
    intro id hid
    obtain ⟨x, hx⟩ := hm id hid
    rw [hx]
    rfl
  refine ⟨fun id => (m.get? id).getD 0, ?_, ?_, hholds⟩
  · unfold read?
    rw [if_neg (not_not_intro hlength), hread]
    change t.outputs.mapM m.get? = _
    exact SymbolMap.mapM_get? fun id hid => hget id (hclosed.2 id hid)
  · have hinputs := SymbolMap.map_get?_insertAll (List.nodup_append.1 honce).1 hlength.symm
      (SymbolMap.empty : SymbolMap M)
    have hsome : (t.inputs.map fun id => (m.get? id).getD 0).map some = xs.map some := by
      rw [List.map_map, ← hinputs]
      refine List.map_congr_left fun id hid => ?_
      rw [← hsame id hid]
      exact (hget id (List.mem_append_left _ hid)).symm
    exact List.map_injective_iff.2 (fun _ _ => Option.some.inj) hsome

end Trace

end TraceSubstitution
