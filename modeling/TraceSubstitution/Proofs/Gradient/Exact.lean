import TraceSubstitution.Proofs.Gradient.Additions
import TraceSubstitution.Proofs.Trace.Paths
import TraceSubstitution.Proofs.Trace.Reading

/-!
# Gradients of sums are exact

In a commutative monoid, the gradient of a symbol is the total of all contributions
to it. The joint program of a program of additions makes a contribution for every
cotangent and for every operand, so what flows back to an input is the sum of all
cotangents, each taken as often as there are paths from the input to the output
(`Core.joint_sums`).
-/

namespace TraceSubstitution

variable {α : Type} {M : Type*} [AddCommMonoid M] {v : SymbolId → M}

namespace Contribution

/-- The total of all contributions to the gradient of a symbol. -/
def total (v : SymbolId → M) (contributions : List Contribution) (id : SymbolId) : M :=
  ((Contribution.to id contributions).map v).sum

theorem total_append (v : SymbolId → M) (contributions more : List Contribution) (id : SymbolId) :
    total v (contributions ++ more) id = total v contributions id + total v more id := by
  unfold total
  rw [to_append, List.map_append, List.sum_append]

theorem total_cons (v : SymbolId → M) (c : Contribution) (contributions : List Contribution)
    (id : SymbolId) : total v (c :: contributions) id =
      (if c.target = id then v c.value else 0) + total v contributions id := by
  rw [← List.singleton_append, total_append]
  refine congrArg (· + _) ?_
  unfold total
  rw [to_singleton]
  split
  · exact List.sum_singleton
  · rfl

theorem total_flatMap {β : Type*} (v : SymbolId → M) (xs : List β) (f : β → List Contribution)
    (id : SymbolId) : total v (xs.flatMap f) id = (xs.map fun x => total v (f x) id).sum := by
  induction xs with
  | nil => rfl
  | cons x xs ih => rw [List.flatMap_cons, total_append, ih, List.map_cons, List.sum_cons]

theorem total_zipWith {σ : SymbolId → SymbolId} {x : SymbolId} {outputs cotangents : List SymbolId}
    (hlength : cotangents.length = outputs.length) (hσ : ∀ o ∈ outputs, σ o = σ x → o = x) :
    total v (List.zipWith Contribution.mk (outputs.map σ) cotangents) (σ x) =
      Trace.sumSeeds (outputs.zip (cotangents.map v)) x := by
  induction outputs generalizing cotangents with
  | nil => rfl
  | cons o outputs ih =>
    cases cotangents with
    | nil => exact nomatch hlength
    | cons c cotangents =>
      obtain ⟨ho, hσ⟩ := List.forall_mem_cons.1 hσ
      have hiff : σ o = σ x ↔ x = o := ⟨fun heq => (ho heq).symm, fun heq => congrArg σ heq.symm⟩
      rw [List.map_cons, List.zipWith_cons_cons, total_cons, ih (Nat.succ.inj hlength) hσ]
      simp only [hiff]
      rfl

end Contribution

/-- What flows back through an addition: once for each operand. -/
theorem Addition.total_contributions {σ : SymbolId → SymbolId} {a : Addition} {x : SymbolId}
    (hlhs : σ a.lhs = σ x → a.lhs = x) (hrhs : σ a.rhs = σ x → a.rhs = x) (d : SymbolId)
    (m : SymbolMap SymbolId) :
    Contribution.total v (((a.rename σ).fragment d : Fragment α).contributions m) (σ x) =
      [some a.lhs, some a.rhs].count (some x) • v (m.rename d) := by
  have hleft : σ a.lhs = σ x ↔ a.lhs = x := ⟨hlhs, congrArg σ⟩
  have hright : σ a.rhs = σ x ↔ a.rhs = x := ⟨hrhs, congrArg σ⟩
  change Contribution.total v [⟨σ a.lhs, m.rename d⟩, ⟨σ a.rhs, m.rename d⟩] (σ x) = _
  rw [Contribution.total_cons, Contribution.total_cons]
  simp only [hleft, hright, List.count_cons, List.count_nil, beq_iff_eq, Option.some_inj]
  change _ + (_ + 0) = _
  rw [add_zero, zero_add, add_nsmul, ite_smul, ite_smul, one_nsmul, zero_nsmul, add_comm]

variable [Scalar α]

namespace Node

theorem Sum.value {nodes : List (Node α)} (hv : ∀ n ∈ nodes, n.Holds v) {xs : List SymbolId}
    {g : SymbolId} (h : Sum nodes xs g) : v g = (xs.map v).sum := by
  induction h with
  | one x => exact List.sum_singleton.symm
  | add _ hmem ih =>
    rw [(holds_add_iff rfl rfl rfl).1 (hv _ hmem), ih, List.map_append, List.sum_append]
    exact congrArg _ List.sum_singleton.symm

theorem Gradient.value {nodes : List (Node α)} (hv : ∀ n ∈ nodes, n.Holds v)
    {contributions : List Contribution} {primal g : SymbolId}
    (h : Gradient nodes contributions primal g) :
    v g = Contribution.total v contributions primal := by
  unfold Gradient at h
  unfold Contribution.total
  split at h
  · next hnone =>
    rw [hnone]
    exact (holds_zerosLike_iff rfl rfl rfl).1 (hv _ h)
  · exact h.value hv

end Node

namespace Core

variable {σ : SymbolId → SymbolId} {known : List SymbolId} {additions : List Addition}

theorem agree_of_closed {v₀ : SymbolId → M}
    (hclosed : Node.Closed known (additions.map Addition.node : List (Node α)))
    (h₀ : ∀ a ∈ additions, v₀ a.sum = v₀ a.lhs + v₀ a.rhs)
    (h : ∀ a ∈ additions, v (σ a.sum) = v (σ a.lhs) + v (σ a.rhs))
    (hknown : ∀ id ∈ known, v (σ id) = v₀ id) :
    ∀ id ∈ known ++ additions.map Addition.sum, v (σ id) = v₀ id := by
  induction additions generalizing known with
  | nil => exact (List.append_nil known).symm ▸ hknown
  | cons a additions ih =>
    obtain ⟨hreads, hclosed⟩ := Node.closed_cons.1 hclosed
    obtain ⟨ha₀, h₀⟩ := List.forall_mem_cons.1 h₀
    obtain ⟨ha, h⟩ := List.forall_mem_cons.1 h
    have hall := ih hclosed h₀ h fun id hid => by
      rcases List.mem_append.1 hid with hid | hid
      · exact hknown id hid
      · rw [List.mem_singleton.1 hid, ha, ha₀, hknown a.lhs (hreads a.lhs List.mem_cons_self),
          hknown a.rhs (hreads a.rhs (List.mem_cons_of_mem _ List.mem_cons_self))]
    rwa [List.append_assoc] at hall

omit [Scalar α] in
theorem map_eq_map_of_forall₂ {β γ δ : Type*} {R : β → γ → Prop} {f : β → δ} {g : γ → δ}
    {xs : List β} {ys : List γ} (h : List.Forall₂ R xs ys)
    (hfg : ∀ x ∈ xs, ∀ y ∈ ys, R x y → f x = g y) : xs.map f = ys.map g := by
  induction h with
  | nil => rfl
  | cons hxy _ ih =>
    rw [List.map_cons, List.map_cons, hfg _ List.mem_cons_self _ List.mem_cons_self hxy,
      ih fun x hx y hy => hfg x (List.mem_cons_of_mem _ hx) y (List.mem_cons_of_mem _ hy)]

/-- What a replayed fragment contributes is the gradient of the sum, once for each operand. -/
theorem map_total_replayed {known : List SymbolId} {p : Progress α}
    {fragments : List (Fragment α)} {joint : Trace α} {outputs inputs : List Symbol}
    {cotangents gradients : List SymbolId} {replayed : List (Replayed α)}
    (hleaves : List.Forall₂ (fun a f => ∃ d, f = (a.rename p.rename).fragment d) additions fragments)
    (hjoins : joint.Joins p fragments outputs inputs cotangents replayed gradients)
    (hv : ∀ n ∈ joint.nodes, n.Holds v)
    (hreads : ∀ a ∈ additions, a.lhs ∈ known ∧ a.rhs ∈ known) {x : SymbolId}
    (hx : ∀ y ∈ known, p.rename y = p.rename x → y = x) :
    (additions.reverse.map fun a => [some a.lhs, some a.rhs].count (some x) •
      Contribution.total v (Contribution.all outputs cotangents replayed) (p.rename a.sum)) =
        replayed.map fun y => Contribution.total v (y.1.contributions y.2) (p.rename x) := by
  have hpairs := List.forall₂_reverse_iff.2 hleaves
  rw [← hjoins.order, List.forall₂_map_right_iff] at hpairs
  refine map_eq_map_of_forall₂ hpairs ?_
  rintro a ha ⟨f, m⟩ hy ⟨d, rfl⟩
  obtain ⟨hlhs, hrhs⟩ := hreads a (List.mem_reverse.1 ha)
  obtain ⟨g, hg, hgradient⟩ := (hjoins.renamed _ hy).placeholders (d, p.rename a.sum)
    (List.mem_singleton_self _)
  rw [Addition.total_contributions (hx a.lhs hlhs) (hx a.rhs hrhs), SymbolMap.rename, hg]
  exact congrArg (_ • ·) (hgradient.value hv).symm

/-- What flows back in the joint program flows back along paths. -/
theorem total_eq_sumPaths {t : Trace α} (h : t.Recorded)
    (hadditions : t.nodes = additions.map Addition.node) {p : Progress α}
    {fragments : List (Fragment α)} {joint : Trace α} {outputs inputs : List Symbol}
    {cotangents gradients : List SymbolId} {replayed : List (Replayed α)}
    (hcopies : p.Copies t.symbols (t.inputs ++ additions.map Addition.sum))
    (hleaves : List.Forall₂ (fun a f => ∃ d, f = (a.rename p.rename).fragment d) additions fragments)
    (houtputs : outputs.map Symbol.id = t.outputs.map p.rename)
    (hjoins : joint.Joins p fragments outputs inputs cotangents replayed gradients)
    (hv : ∀ n ∈ joint.nodes, n.Holds v) :
    ∀ x ∈ t.inputs ++ additions.map Addition.sum,
      Contribution.total v (Contribution.all outputs cotangents replayed) (p.rename x) =
        t.sumPaths (t.outputs.zip (cotangents.map v)) x := by
  obtain ⟨hclosed, hknown⟩ := h.closed
  rw [hadditions, flatMap_outputs_node] at hknown
  rw [hadditions] at hclosed
  refine h.ascends.eq_sumPaths ?_ fun x hx => ?_
  · rw [hadditions]
    intro n hn id hid
    obtain ⟨a, ha, rfl⟩ := List.mem_map.1 hn
    rw [List.mem_singleton.1 hid]
    exact List.mem_append_right _ (List.mem_map_of_mem ha)
  · have hinj : ∀ y ∈ t.inputs ++ additions.map Addition.sum, p.rename y = p.rename x → y = x :=
      fun y hy => hcopies.injective y hy x hx
    have hlength : cotangents.length = t.outputs.length := by
      rw [hjoins.supplied.2, ← List.length_map (f := Symbol.id), houtputs, List.length_map]
    have hreads : ∀ a ∈ additions, a.lhs ∈ t.inputs ++ additions.map Addition.sum ∧
        a.rhs ∈ t.inputs ++ additions.map Addition.sum := by
      intro a ha
      rw [← flatMap_outputs_node (α := α)]
      have hread := fun x (hx : some x ∈ (a.node : Node α).inputs) =>
        hclosed.mem_known (List.mem_map_of_mem ha) hx
      exact ⟨hread a.lhs List.mem_cons_self,
        hread a.rhs (List.mem_cons_of_mem _ List.mem_cons_self)⟩
    have hflows := map_total_replayed hleaves hjoins hv hreads hinj
    -- Cotangents are the seeds, and each replayed fragment is the first arrow of further paths.
    calc Contribution.total v (Contribution.all outputs cotangents replayed) (p.rename x)
        = Contribution.total v (List.zipWith Contribution.mk (t.outputs.map p.rename) cotangents)
              (p.rename x) + Contribution.total v (replayed.flatMap fun y =>
            y.1.contributions y.2) (p.rename x) := by
          rw [Contribution.all, houtputs, Contribution.total_append]
      _ = Trace.sumSeeds (t.outputs.zip (cotangents.map v)) x + (replayed.map fun y =>
            Contribution.total v (y.1.contributions y.2) (p.rename x)).sum := by
          rw [Contribution.total_zipWith hlength fun o ho => hinj o (hknown o ho),
            Contribution.total_flatMap]
      _ = _ := by
          rw [← hflows, List.map_reverse, (List.reverse_perm _).sum_eq, hadditions, List.map_map]
          simp only [Function.comp_def, Addition.node, List.map_cons, List.map_nil,
            List.sum_singleton]

theorem readable_of_joins {p : Progress α} {fragments : List (Fragment α)} {joint : Trace α}
    {outputs inputs : List Symbol} {cotangents gradients : List SymbolId}
    {replayed : List (Replayed α)}
    (hnodes : p.tracer.nodes = additions.map fun a => (a.rename p.rename).node)
    (hleaves : List.Forall₂ (fun a f => ∃ d, f = (a.rename p.rename).fragment d) additions fragments)
    (hjoins : joint.Joins p fragments outputs inputs cotangents replayed gradients) :
    ∀ n ∈ joint.nodes, n.Readable := by
  have hcalls : ∀ f ∈ fragments, ∀ m, f.calls m = [] := by
    clear hjoins hnodes
    induction hleaves with
    | nil => exact fun f hf => absurd hf List.not_mem_nil
    | cons hleaf _ ih =>
      obtain ⟨d, rfl⟩ := hleaf
      exact List.forall_mem_cons.2 ⟨fun _ => rfl, ih⟩
  obtain ⟨backward, hall, hbackward⟩ := hjoins.nodes
  intro n hn
  rw [hall, hnodes] at hn
  rcases List.mem_append.1 hn with hn | hn
  · obtain ⟨a, -, rfl⟩ := List.mem_map.1 hn
    exact .inl ⟨_, _, _, rfl, rfl, rfl⟩
  · rcases hbackward.mem_or hn with hn | hgathers
    · obtain ⟨y, hy, hn⟩ := List.mem_flatMap.1 hn
      have hmem : y.1 ∈ fragments :=
        List.mem_reverse.1 (hjoins.order ▸ List.mem_map_of_mem hy)
      rw [hcalls y.1 hmem] at hn
      exact absurd hn List.not_mem_nil
    · exact Node.readable_of_gathers hgathers

theorem readable_of_additions {t : Trace α} (hadditions : t.nodes = additions.map Addition.node) :
    ∀ n ∈ t.nodes, n.Readable := by
  intro n hn
  rw [hadditions] at hn
  obtain ⟨a, -, rfl⟩ := List.mem_map.1 hn
  exact .inl ⟨_, _, _, rfl, rfl, rfl⟩

/-- With the `core` namespace alone, a program of additions always has a joint program, under any
overrides and options and after any history. In every commutative monoid the joint program gives
what the source gives, and then, for each input, the sum of the cotangents of all outputs, each taken
as often as there are paths from the input to the output. -/
theorem joint_sums (overrides : Overrides) (options : ReplacerOptions) (history : List (Request α))
    (id : TraceId) (t : Trace α) (h : t.Recorded) (hops : ∀ n ∈ t.nodes, n.op = .highLevel add) :
    ∃ x s', ((replacer overrides options).joint id t).apply
          ((replacer overrides options).after history) = (.ok x, s') ∧
      ∀ (M : Type*) [AddCommMonoid M] (xs cotangents : List M), xs.length = t.inputs.length →
        cotangents.length = t.outputs.length → ∃ outputs, t.read? xs = some outputs ∧
          x.trace.read? (xs ++ cotangents) =
            some (outputs ++ t.inputs.map (t.sumPaths (t.outputs.zip cotangents))) := by
  obtain ⟨additions, hadditions⟩ := exists_additions h hops
  obtain ⟨p, fragments, x, s', outputs, inputs, cotangents, replayed, gradients, hjoint, hcopies,
    hinputs, hnodes, hleaves, hout, hin, hjoins⟩ := exists_joint overrides options
      (Replacer.ruleless_after (rules_replacer overrides options) history) h hadditions id
  refine ⟨x, s', hjoint, fun M _ xs cs hxs hcs => ?_⟩
  have hlength : cotangents.length = t.outputs.length := by
    rw [hjoins.supplied.2, ← List.length_map (f := Symbol.id), hout, List.length_map]
  obtain ⟨v₀, hsource, hv₀inputs, hv₀⟩ := Trace.exists_values (readable_of_additions hadditions)
    h.closed h.nodup hxs
  have hinputsLength : (xs ++ cs).length = x.trace.inputs.length := by
    rw [hjoins.supplied.1, hinputs, List.length_append, List.length_append, List.length_map, hxs, hcs,
      hlength]
  obtain ⟨v, hread, hvinputs, hv⟩ := Trace.exists_values (readable_of_joins hnodes hleaves hjoins)
    hjoins.closed hjoins.once hinputsLength
  rw [hjoins.supplied.1, hinputs, List.map_append] at hvinputs
  obtain ⟨hxs', hcs'⟩ := List.append_inj hvinputs (by simp [hxs])
  have hagree : ∀ y ∈ t.inputs ++ additions.map Addition.sum, v (p.rename y) = v₀ y := by
    obtain ⟨backward, hall, -⟩ := hjoins.nodes
    refine agree_of_closed (hadditions ▸ h.closed.1) (fun a ha => ?_) (fun a ha => ?_) ?_
    · exact (Node.holds_add_iff rfl rfl rfl).1
        (hv₀ a.node (hadditions ▸ List.mem_map_of_mem ha))
    · refine (Node.holds_add_iff rfl rfl rfl).1 (hv (a.rename p.rename).node ?_)
      rw [hall, hnodes]
      exact List.mem_append_left _ (List.mem_map_of_mem ha)
    · rw [← hv₀inputs, List.map_map] at hxs'
      exact fun y hy => List.map_inj_left.1 hxs' y hy
  have hforward : (t.outputs.map p.rename).map v = t.outputs.map v₀ := by
    have hknown := h.closed.2
    rw [hadditions, flatMap_outputs_node] at hknown
    rw [List.map_map]
    exact List.map_congr_left fun y hy => hagree y (hknown y hy)
  have hbackward : gradients.map v = t.inputs.map (t.sumPaths (t.outputs.zip cs)) := by
    have htotal := total_eq_sumPaths h hadditions hcopies hleaves hout hjoins hv
    calc gradients.map v
        = inputs.map fun input => Contribution.total v
            (Contribution.all outputs cotangents replayed) input.id :=
          (map_eq_map_of_forall₂ hjoins.complete fun _ _ _ _ hg => (hg.value hv).symm).symm
      _ = (t.inputs.map p.rename).map
            (Contribution.total v (Contribution.all outputs cotangents replayed)) := by
          rw [← hin, List.map_map]
          rfl
      _ = t.inputs.map (t.sumPaths (t.outputs.zip cs)) := by
          rw [List.map_map, ← hcs']
          exact List.map_congr_left fun y hy => htotal y (List.mem_append_left _ hy)
  refine ⟨t.outputs.map v₀, hsource, ?_⟩
  rw [hread, hjoins.returned, List.map_append, hout, hforward, hbackward]

theorem card_path_doubling : Nat.card (doubling.Path ⟨1⟩ ⟨0⟩) = 2 := by
  have hend : Nat.card (doubling.Path ⟨1⟩ ⟨1⟩) = 1 := by
    rw [recorded_doubling.ascends.card_path]
    change 1 + (0 * (Nat.card (doubling.Path ⟨1⟩ ⟨1⟩) + 0) + 0) = 1
    rw [Nat.zero_mul]
  rw [recorded_doubling.ascends.card_path]
  change 0 + (2 * (Nat.card (doubling.Path ⟨1⟩ ⟨1⟩) + 0) + 0) = 2
  rw [hend]

/-- The two paths through `doubling` make the gradient twice the cotangent. -/
theorem joint_sums_doubling : doubling.Recorded ∧
    (∀ n ∈ doubling.nodes, n.op = .highLevel (add : Operator Float32)) ∧
    ∃ x s', ((replacer .empty ⟨none, 0⟩).joint ⟨1⟩ doubling).apply
        ((replacer .empty ⟨none, 0⟩).after []) = (.ok x, s') ∧
      x.trace.read? [3, 5] = some [6, 10] := by
  have hops : ∀ n ∈ doubling.nodes, n.op = .highLevel (add : Operator Float32) := by
    intro n hn
    rw [List.mem_singleton.1 hn]
  obtain ⟨x, s', hjoint, hread⟩ := joint_sums .empty ⟨none, 0⟩ [] ⟨1⟩ doubling recorded_doubling hops
  obtain ⟨outputs, hsource, hx⟩ := hread Nat [3] [5] rfl rfl
  refine ⟨recorded_doubling, hops, x, s', hjoint, ?_⟩
  have hforward : doubling.read? [3] = some [6] := rfl
  obtain rfl : outputs = [6] := Option.some.inj (hsource.symm.trans hforward)
  have hgradient : doubling.inputs.map (doubling.sumPaths (doubling.outputs.zip [5])) = [10] := by
    change [Nat.card (doubling.Path ⟨1⟩ ⟨0⟩) • 5 + 0] = [10]
    rw [card_path_doubling]
    rfl
  exact hx.trans (congrArg (fun gradients => some ([6] ++ gradients)) hgradient)

end Core

end TraceSubstitution
