import TraceSubstitution.Proofs.Gradient.Fragment
import TraceSubstitution.Proofs.Operator.Binding
import TraceSubstitution.Replacement.Joint

/-!
# Sums of contributions

The gradient of a symbol is the sum of all contributions to it, added one after
the other by calls of `core::add`, or a call of `core::zeros_like` if there are
none (`Node.Gradient`). While the backward part of a program is built, the
binding of a symbol is the sum of the contributions so far: `Backward.Keeps` says
so, with an account of what has been done. Nothing is assumed of the fragments for
this.
-/

namespace TraceSubstitution

/-- Something that is added to the gradient of a symbol. -/
structure Contribution where
  /-- The symbol. -/
  target : SymbolId
  /-- What is added to its gradient. -/
  value : SymbolId

/-- What is added to the gradient of a symbol, in order. -/
def Contribution.to (id : SymbolId) (contributions : List Contribution) : List SymbolId :=
  (contributions.filter (·.target = id)).map value

namespace Contribution

theorem to_append (id : SymbolId) (contributions more : List Contribution) :
    Contribution.to id (contributions ++ more) =
      Contribution.to id contributions ++ Contribution.to id more := by
  simp [Contribution.to]

theorem to_singleton (id : SymbolId) (c : Contribution) :
    Contribution.to id [c] = if c.target = id then [c.value] else [] := by
  unfold Contribution.to
  split
  · next heq => simp [heq]
  · next hne => simp [hne]

theorem to_eq_nil {id : SymbolId} {contributions : List Contribution}
    (h : id ∉ contributions.map target) : Contribution.to id contributions = [] := by
  unfold Contribution.to
  rw [List.map_eq_nil_iff, List.filter_eq_nil_iff]
  intro c hc heq
  exact h (List.mem_map.2 ⟨c, hc, of_decide_eq_true heq⟩)

end Contribution

variable {α : Type}

/-- Calls in their order, with other calls between them that have the given property. -/
inductive Node.Interleaved (Other : Node α → Prop) : List (Node α) → List (Node α) → Prop where
  | nil : Interleaved Other [] []
  | call (n : Node α) {calls nodes : List (Node α)} :
    Interleaved Other calls nodes → Interleaved Other (n :: calls) (n :: nodes)
  | other {n : Node α} {calls nodes : List (Node α)} :
    Other n → Interleaved Other calls nodes → Interleaved Other calls (n :: nodes)

theorem Node.Interleaved.append {Other : Node α → Prop} {calls calls' nodes nodes' : List (Node α)}
    (h : Interleaved Other calls nodes) (h' : Interleaved Other calls' nodes') :
    Interleaved Other (calls ++ calls') (nodes ++ nodes') := by
  induction h with
  | nil => exact h'
  | call n _ ih => exact .call n ih
  | other hn _ ih => exact .other hn ih

theorem Node.Interleaved.mem_or {Other : Node α → Prop} {calls nodes : List (Node α)}
    (h : Interleaved Other calls nodes) {n : Node α} (hn : n ∈ nodes) : n ∈ calls ∨ Other n := by
  induction h with
  | nil => exact absurd hn List.not_mem_nil
  | call m _ ih =>
    rcases List.mem_cons.1 hn with rfl | hn
    · exact .inl List.mem_cons_self
    · exact (ih hn).imp_left (List.mem_cons_of_mem m)
  | other hm _ ih =>
    rcases List.mem_cons.1 hn with rfl | hn
    · exact .inr hm
    · exact ih hn

/-- What a call of a kernel operator without static arguments does that has one result. -/
theorem Tracer.single_call_eq_ok {o : Operator α} (hattrs : o.signature.attrs = [])
    {t t' : Tracer α} (ht : t.capture = none) {operands : List (Option Symbol)} {x : Symbol}
    (h : (do single (← call (.kernel o) operands .empty) : Act (Tracer α) Symbol).apply t =
      (.ok x, t')) : x.id = t.nextId ∧ t' = { t with
        symbols := t.symbols ++ [x.type]
        nodes := t.nodes ++ [⟨.kernel o, operands.map (·.map Symbol.id), .empty, [x.id]⟩] } := by
  obtain ⟨results, t₁, hcall, hsingle⟩ := Act.apply_bind_eq_ok_iff.1 h
  obtain rfl : t₁ = t' := (Prod.mk.inj hsingle).2
  obtain rfl : results = [x] := single_eq_ok_iff.1 (Prod.mk.inj hsingle).1
  obtain ⟨bound, types, hbound, -, -, hresults, rfl⟩ := call_eq_ok_iff.1 hcall
  obtain ⟨type, rfl⟩ : ∃ type, types = [type] := by
    have hlength := congrArg List.length hresults
    rw [length_fresh] at hlength
    exact List.length_eq_one_iff.1 hlength.symm
  obtain rfl : x = ⟨t.id, t.nextId, type⟩ := List.singleton_inj.1 hresults
  obtain rfl : Dict.empty = bound := by
    obtain ⟨-, hbind⟩ := Operator.bind_eq_ok_iff.1 hbound
    have hfold := (Signature.bindAttrs_eq_ok_iff.1 hbind).2
    simpa [hattrs, NodeOp.operator] using hfold
  exact ⟨rfl, declare_append ht [type] _⟩

variable [Scalar α]

namespace Node

/-- The call that adds `rhs` to `lhs`. -/
def add (lhs rhs sum : SymbolId) : Node α :=
  ⟨.kernel Core.add, [some lhs, some rhs], .empty, [sum]⟩

/-- The call that makes zeros of the type of `primal`. -/
def zerosLike (primal zeros : SymbolId) : Node α :=
  ⟨.kernel Core.zerosLike, [some primal], .empty, [zeros]⟩

/-- The calls that add up contributions, or make zeros where there are none. -/
def Gathers (n : Node α) : Prop :=
  (∃ lhs rhs sum, n = add lhs rhs sum) ∨ ∃ primal zeros, n = zerosLike primal zeros

/-- A symbol is the sum of other ones, added one after the other. -/
inductive Sum (nodes : List (Node α)) : List SymbolId → SymbolId → Prop where
  | one (x : SymbolId) : Sum nodes [x] x
  | add {xs : List SymbolId} {total x sum : SymbolId} :
    Sum nodes xs total → Node.add total x sum ∈ nodes → Sum nodes (xs ++ [x]) sum

/-- A symbol is the gradient of another one: the sum of all contributions, or zeros. -/
def Gradient (nodes : List (Node α)) (contributions : List Contribution) (primal g : SymbolId) :
    Prop :=
  if Contribution.to primal contributions = [] then zerosLike primal g ∈ nodes
  else Sum nodes (Contribution.to primal contributions) g

theorem Sum.mono {nodes nodes' : List (Node α)} {xs : List SymbolId} {g : SymbolId}
    (h : Sum nodes xs g) (hsub : nodes ⊆ nodes') : Sum nodes' xs g := by
  induction h with
  | one x => exact .one x
  | add _ hmem ih => exact .add ih (hsub hmem)

theorem Sum.ne_nil {nodes : List (Node α)} {xs : List SymbolId} {g : SymbolId}
    (h : Sum nodes xs g) : xs ≠ [] := by
  cases h with
  | one => exact List.cons_ne_nil g []
  | add _ _ => exact List.concat_ne_nil _ _

/-- The sum of one symbol is this symbol. -/
theorem Sum.eq_of_singleton {nodes : List (Node α)} {x g : SymbolId} (h : Sum nodes [x] g) :
    g = x := by
  generalize hxs : [x] = xs at h
  cases h with
  | one y => exact (List.singleton_inj.1 hxs).symm
  | @add ys total y sum hsum _ =>
    have hnil : ys = [] := by
      have hlength := congrArg List.length hxs
      simp only [List.length_append, List.length_singleton] at hlength
      exact List.length_eq_zero_iff.1 (by omega)
    exact absurd hnil hsum.ne_nil

theorem gradient_of_sum {nodes : List (Node α)} {contributions : List Contribution}
    {primal g : SymbolId} (h : Sum nodes (Contribution.to primal contributions) g) :
    Gradient nodes contributions primal g := by
  unfold Gradient
  rw [if_neg h.ne_nil]
  exact h

/-- Contributions to other gradients make no difference. -/
theorem Gradient.mono {nodes nodes' : List (Node α)} {contributions more : List Contribution}
    {primal g : SymbolId} (h : Gradient nodes contributions primal g) (hsub : nodes ⊆ nodes')
    (hmore : primal ∉ more.map Contribution.target) :
    Gradient nodes' (contributions ++ more) primal g := by
  unfold Gradient at h ⊢
  rw [Contribution.to_append, Contribution.to_eq_nil hmore, List.append_nil]
  split
  · next heq => exact hsub (by rwa [if_pos heq] at h)
  · next hne => exact Sum.mono (by rwa [if_neg hne] at h) hsub

theorem Gradient.of_subset {nodes nodes' : List (Node α)} {contributions : List Contribution}
    {primal g : SymbolId} (h : Gradient nodes contributions primal g) (hsub : nodes ⊆ nodes') :
    Gradient nodes' contributions primal g := by
  have hmore : primal ∉ ([] : List Contribution).map Contribution.target := List.not_mem_nil
  have hmono := h.mono hsub hmore
  rwa [List.append_nil] at hmono

end Node

/-- What has been done for the backward part of a program. -/
structure Ledger (α : Type) where
  /-- The cotangents that have been declared. -/
  cotangents : List SymbolId
  /-- The contributions that have been added. -/
  contributions : List Contribution
  /-- The calls of fragments that have been replayed. -/
  calls : List (Node α)

/-- The ledger with further contributions and calls of fragments. -/
def Ledger.add {α : Type} (l : Ledger α) (contributions : List Contribution)
    (calls : List (Node α)) : Ledger α :=
  { l with contributions := l.contributions ++ contributions, calls := l.calls ++ calls }

/-- The backward part so far does what the ledger says, after the given forward part. -/
structure Backward.Keeps (forward : Tracer α) (l : Ledger α) (b : Backward α) : Prop where
  capture : b.1.capture = none
  inputs : b.1.inputs = forward.inputs ++ l.cotangents
  nodes : ∃ backward, b.1.nodes = forward.nodes ++ backward ∧
    Node.Interleaved Node.Gathers l.calls backward
  bound : ∀ id g, b.2.get? id = some g →
    Node.Sum b.1.nodes (Contribution.to id l.contributions) g.id
  unbound : ∀ id, b.2.get? id = none → Contribution.to id l.contributions = []

namespace GradientBinding

theorem sum_eq_ok {t t' : Tracer α} (ht : t.capture = none) {lhs rhs total : Symbol}
    (h : (sum lhs rhs).apply t = (.ok total, t')) : total.id = t.nextId ∧ t' = { t with
      symbols := t.symbols ++ [total.type]
      nodes := t.nodes ++ [.add lhs.id rhs.id total.id] } :=
  Tracer.single_call_eq_ok rfl ht h

variable {t : Tracer α} {grads : GradientBinding} {primal : SymbolId}

theorem apply_accumulate_of_none (h : grads.get? primal = none) (x : Symbol) :
    (accumulate primal x).apply (t, grads) = (.ok (), t, grads.insert primal x) := by
  unfold accumulate
  unfold Act.apply
  simp only [ExceptT.run, h]

theorem apply_accumulate_of_some {existing : Symbol} (h : grads.get? primal = some existing)
    {x total : Symbol} {t' : Tracer α} (hsum : (sum existing x).apply t = (.ok total, t')) :
    (accumulate primal x).apply (t, grads) = (.ok (), t', grads.insert primal total) := by
  unfold accumulate
  unfold Act.apply at hsum ⊢
  simp only [ExceptT.run, h] at hsum ⊢
  rw [hsum]

/-- The first contribution is bound as it is; for each further one a sum is recorded. -/
theorem exists_of_accumulate {b b' : Backward α} {x : Symbol}
    (hrun : (accumulate primal x).apply b = (.ok (), b')) :
    (b.2.get? primal = none ∧ b' = (b.1, b.2.insert primal x)) ∨
      ∃ existing total t, b.2.get? primal = some existing ∧
        (sum existing x).apply b.1 = (.ok total, t) ∧ b' = (t, b.2.insert primal total) := by
  obtain ⟨t, grads⟩ := b
  cases hget : grads.get? primal with
  | none =>
    rw [apply_accumulate_of_none hget] at hrun
    exact .inl ⟨rfl, (Prod.mk.inj hrun).2.symm⟩
  | some existing =>
    unfold accumulate at hrun
    unfold Act.apply at hrun
    simp only [ExceptT.run, hget] at hrun
    rcases hsum : sum existing x t with ⟨e | total, t'⟩
    · rw [hsum] at hrun
      exact nomatch (Prod.mk.inj hrun).1
    · rw [hsum] at hrun
      exact .inr ⟨existing, total, t', rfl, hsum, (Prod.mk.inj hrun).2.symm⟩

/-- A contribution is bound as it is if it is the first one, and added to the sum so far by a call
otherwise. -/
theorem accumulate_eq_ok {b b' : Backward α} (hb : b.1.capture = none) {x : Symbol}
    (hrun : (accumulate primal x).apply b = (.ok (), b')) :
    (b.2.get? primal = none ∧ b' = (b.1, b.2.insert primal x)) ∨
      ∃ existing total : Symbol, b.2.get? primal = some existing ∧ total.id = b.1.nextId ∧
        b' = ({ b.1 with
          symbols := b.1.symbols ++ [total.type]
          nodes := b.1.nodes ++ [.add existing.id x.id total.id] }, b.2.insert primal total) := by
  refine (exists_of_accumulate hrun).imp_right fun ⟨existing, total, t, hget, hsum, hb'⟩ => ?_
  obtain ⟨hid, rfl⟩ := sum_eq_ok hb hsum
  exact ⟨existing, total, hget, hid, hb'⟩

end GradientBinding

namespace Backward.Keeps

variable {forward : Tracer α} {l : Ledger α} {b b' : Backward α}

theorem record (h : Keeps forward l b) (type : TensorType) {n : Node α} (hn : n.Gathers) :
    Keeps forward l
      ({ b.1 with symbols := b.1.symbols ++ [type], nodes := b.1.nodes ++ [n] }, b.2) := by
  obtain ⟨backward, hbackward, hcalls⟩ := h.nodes
  refine ⟨h.capture, h.inputs, ⟨backward ++ [n], ?_, ?_⟩,
    fun id g hg => (h.bound id g hg).mono (List.subset_append_left _ _), h.unbound⟩
  · rw [hbackward, List.append_assoc]
  · have happend := hcalls.append (.other hn .nil)
    rwa [List.append_nil] at happend

theorem bind (h : Keeps forward l b) {primal x : SymbolId} {total : Symbol}
    (hsum : Node.Sum b.1.nodes (Contribution.to primal l.contributions ++ [x]) total.id) :
    Keeps forward { l with contributions := l.contributions ++ [⟨primal, x⟩] }
      (b.1, b.2.insert primal total) where
  capture := h.capture
  inputs := h.inputs
  nodes := h.nodes
  bound := by
    intro id g hg
    rw [SymbolMap.get?_insert] at hg
    rw [Contribution.to_append, Contribution.to_singleton]
    by_cases hid : id = primal
    · rw [if_pos hid] at hg
      obtain rfl := Option.some.inj hg
      rw [if_pos hid.symm, hid]
      exact hsum
    · rw [if_neg hid] at hg
      rw [if_neg (Ne.symm hid), List.append_nil]
      exact h.bound id g hg
  unbound := by
    intro id hnone
    rw [SymbolMap.get?_insert] at hnone
    rw [Contribution.to_append, Contribution.to_singleton]
    by_cases hid : id = primal
    · rw [if_pos hid] at hnone
      exact nomatch hnone
    · rw [if_neg hid] at hnone
      rw [if_neg (Ne.symm hid), List.append_nil]
      exact h.unbound id hnone

theorem accumulate (h : Keeps forward l b) {primal : SymbolId} {x : Symbol}
    (hrun : (GradientBinding.accumulate primal x).apply b = (.ok (), b')) :
    Keeps forward { l with contributions := l.contributions ++ [⟨primal, x.id⟩] } b' ∧
      b.1.nodes ⊆ b'.1.nodes := by
  rcases GradientBinding.accumulate_eq_ok h.capture hrun with
    ⟨hget, rfl⟩ | ⟨existing, total, hget, -, rfl⟩
  · refine ⟨h.bind ?_, List.Subset.refl _⟩
    rw [h.unbound primal hget]
    exact .one x.id
  · have hsub : b.1.nodes ⊆ b.1.nodes ++ [.add existing.id x.id total.id] :=
      List.subset_append_left _ _
    refine ⟨(h.record total.type (.inl ⟨_, _, _, rfl⟩)).bind ?_, hsub⟩
    exact .add ((h.bound primal existing hget).mono hsub)
      (List.mem_append_right _ (List.mem_singleton_self _))

end Backward.Keeps

end TraceSubstitution
