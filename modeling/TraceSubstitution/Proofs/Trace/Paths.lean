import Mathlib.Algebra.BigOperators.Fin
import Mathlib.Data.Finite.Sigma
import Mathlib.Data.Finite.Sum
import Mathlib.SetTheory.Cardinal.Finite
import TraceSubstitution.Proofs.Trace.Recorded

/-!
# Paths through programs

A path leads from a symbol through calls that read it to their outputs, and so on
(`Trace.Path`). In a program in which calls read earlier symbols only there are
finitely many, and they are counted by their first arrow (`Trace.Ascends.card_path`).

What flows back along all paths adds up. A quantity that every symbol has once for
each time it is seeded, and again for each time a call reads it, is the sum of all
seeds, each taken as often as there are paths to it (`Trace.Ascends.eq_sum_paths`).
-/

namespace TraceSubstitution

variable {α : Type}

namespace Trace

/-- An operand of a call with an output of the call. -/
abbrev Arrow (t : Trace α) : Type :=
  Σ i : Fin t.nodes.length, Fin t.nodes[i].inputs.length × Fin t.nodes[i].outputs.length

namespace Arrow

variable {t : Trace α}

/-- The operand. -/
def source (a : t.Arrow) : Option SymbolId := t.nodes[a.1].inputs[a.2.1]

/-- The output. -/
def target (a : t.Arrow) : SymbolId := t.nodes[a.1].outputs[a.2.2]

end Arrow

/-- The paths to `y` from the symbol that comes last. -/
inductive Path (t : Trace α) (y : SymbolId) : SymbolId → Type
  | here : Path t y y
  | through {x : SymbolId} (a : t.Arrow) (reads : a.source = some x) (rest : Path t y a.target) :
    Path t y x

/-- A path is empty, or it has a first arrow. -/
def pathEquiv (t : Trace α) (y x : SymbolId) :
    t.Path y x ≃ PLift (x = y) ⊕ Σ a : { a : t.Arrow // a.source = some x }, t.Path y a.1.target where
  toFun
    | .here => .inl ⟨rfl⟩
    | .through a reads rest => .inr ⟨⟨a, reads⟩, rest⟩
  invFun
    | .inl ⟨h⟩ => h ▸ .here
    | .inr ⟨a, rest⟩ => .through a.1 a.2 rest
  left_inv
    | .here => rfl
    | .through _ _ _ => rfl
  right_inv
    | .inl ⟨rfl⟩ => rfl
    | .inr ⟨_, _⟩ => rfl

variable {M : Type*} [AddCommMonoid M]

/-- The sum of all seeds, each taken as often as there are paths to it. -/
noncomputable def sumPaths (t : Trace α) (seeds : List (SymbolId × M)) (x : SymbolId) : M :=
  (seeds.map fun seed => Nat.card (t.Path seed.1 x) • seed.2).sum

/-- The seeds of a symbol. -/
def sumSeeds (seeds : List (SymbolId × M)) (x : SymbolId) : M :=
  (seeds.map fun seed => if x = seed.1 then seed.2 else 0).sum

/-- The outputs of a call come after its operands. -/
def Ascends (t : Trace α) : Prop :=
  ∀ n ∈ t.nodes, ∀ z ∈ n.outputs, z.index < t.symbols.length ∧
    ∀ id, some id ∈ n.inputs → id.index < z.index

namespace Ascends

variable {t : Trace α}

/-- Induction on how many symbols come after a symbol: a call that reads it has later outputs. -/
theorem induction (h : t.Ascends) {motive : SymbolId → Prop}
    (step : ∀ x, (∀ n ∈ t.nodes, some x ∈ n.inputs → ∀ z ∈ n.outputs, motive z) → motive x)
    (x : SymbolId) : motive x := by
  refine step x fun n hn hx z hz => ?_
  have hlt := (h n hn z hz).1
  -- The number of later symbols falls with every call that reads the symbol.
  generalize hk : t.symbols.length - z.index = k
  induction k using Nat.strong_induction_on generalizing n x z with
  | _ k ih =>
    refine step z fun n' hn' hz' z' hz'' => ?_
    obtain ⟨hlt', hafter⟩ := h n' hn' z' hz''
    have hlater := hafter z hz'
    exact ih _ (by omega) z n' hn' hz' z' hz'' hlt' rfl

theorem mem_of_source {a : t.Arrow} {x : SymbolId} (ha : a.source = some x) :
    some x ∈ t.nodes[a.1].inputs := by
  rw [← ha]
  exact List.getElem_mem _

theorem finite_path (h : t.Ascends) (y x : SymbolId) : Finite (t.Path y x) := by
  induction x using h.induction with
  | _ x ih =>
    have hrest : ∀ a : { a : t.Arrow // a.source = some x }, Finite (t.Path y a.1.target) :=
      fun a => ih _ (List.getElem_mem _) (mem_of_source a.2) _ (List.getElem_mem _)
    exact Finite.of_equiv _ (t.pathEquiv y x).symm

theorem sum_count (inputs : List (Option SymbolId)) (x : SymbolId) (total : Nat) :
    (inputs.map fun id => if id = some x then total else 0).sum =
      inputs.count (some x) * total := by
  induction inputs with
  | nil => simp
  | cons id inputs ih =>
    rw [List.map_cons, List.sum_cons, ih, List.count_cons]
    by_cases heq : id = some x
    · simp [heq, Nat.add_mul, Nat.add_comm]
    · simp [heq]

/-- The sum over all arrows from a symbol, call by call. -/
theorem sum_arrows (t : Trace α) (x : SymbolId) (f : SymbolId → Nat) :
    ∑ a : { a : t.Arrow // a.source = some x }, f a.1.target =
      (t.nodes.map fun n => n.inputs.count (some x) * (n.outputs.map f).sum).sum := by
  calc ∑ a : { a : t.Arrow // a.source = some x }, f a.1.target
      = ∑ a : t.Arrow with a.source = some x, f a.target :=
        (Finset.sum_subtype _ (fun a => by simp) fun a : t.Arrow => f a.target).symm
    _ = ∑ i : Fin t.nodes.length, ∑ k : Fin t.nodes[i].inputs.length,
          ∑ j : Fin t.nodes[i].outputs.length,
            if t.nodes[i].inputs[k] = some x then f t.nodes[i].outputs[j] else 0 := by
        rw [Finset.sum_filter, Fintype.sum_sigma]
        exact Finset.sum_congr rfl fun i _ => Fintype.sum_prod_type _
    _ = ∑ i : Fin t.nodes.length, (t.nodes[i].inputs.count (some x)) *
          (t.nodes[i].outputs.map f).sum := by
        refine Finset.sum_congr rfl fun i _ => ?_
        rw [← sum_count, ← Fin.sum_univ_fun_getElem]
        refine Finset.sum_congr rfl fun k _ => ?_
        simp only [Fin.getElem_fin]
        split
        · exact Fin.sum_univ_fun_getElem _ f
        · exact Finset.sum_const_zero
    _ = _ := Fin.sum_univ_fun_getElem t.nodes fun n =>
          n.inputs.count (some x) * (n.outputs.map f).sum

/-- The number of paths: one for the empty path, and those that go on after a first arrow. -/
theorem card_path (h : t.Ascends) (y x : SymbolId) : Nat.card (t.Path y x) =
    (if x = y then 1 else 0) + (t.nodes.map fun n =>
      n.inputs.count (some x) * (n.outputs.map fun z => Nat.card (t.Path y z)).sum).sum := by
  have hfinite : ∀ z, Finite (t.Path y z) := h.finite_path y
  rw [Nat.card_congr (t.pathEquiv y x), Nat.card_sum, Nat.card_sigma, ← sum_arrows]
  congr 1
  split
  · next heq => simp [heq]
  · next hne => simp [hne]

theorem sum_nsmul {ι : Type*} (xs : List ι) (f : ι → Nat) (c : M) :
    (xs.map f).sum • c = (xs.map fun x => f x • c).sum := by
  induction xs with
  | nil => simp
  | cons x xs ih => rw [List.map_cons, List.sum_cons, add_nsmul, ih, List.map_cons, List.sum_cons]

/-- Seeds flow back along the first arrow of a path. -/
theorem sumPaths_eq (h : t.Ascends) (seeds : List (SymbolId × M)) (x : SymbolId) :
    sumPaths t seeds x = sumSeeds seeds x + (t.nodes.map fun n =>
      n.inputs.count (some x) • (n.outputs.map (sumPaths t seeds)).sum).sum := by
  induction seeds with
  | nil =>
    have hzero : sumPaths t ([] : List (SymbolId × M)) = fun _ => 0 := rfl
    simp [hzero, sumSeeds]
  | cons seed seeds ih =>
    have hcons : sumPaths t (seed :: seeds) = fun z =>
      Nat.card (t.Path seed.1 z) • seed.2 + sumPaths t seeds z := funext fun z => List.sum_cons
    have hseeds : sumSeeds (seed :: seeds) x =
      (if x = seed.1 then seed.2 else 0) + sumSeeds seeds x := List.sum_cons
    have hfirst : Nat.card (t.Path seed.1 x) • seed.2 = (if x = seed.1 then seed.2 else 0) +
        (t.nodes.map fun n => n.inputs.count (some x) •
          (n.outputs.map fun z => Nat.card (t.Path seed.1 z) • seed.2).sum).sum := by
      rw [h.card_path, add_nsmul, sum_nsmul]
      simp only [mul_nsmul', sum_nsmul]
      split
      · rw [one_nsmul]
      · rw [zero_nsmul]
    rw [hcons, hseeds]
    simp only [List.sum_map_add, nsmul_add]
    rw [hfirst, ih, add_add_add_comm]

/-- A quantity that flows back in the same way is the sum over all paths. -/
theorem eq_sumPaths (h : t.Ascends) {known : List SymbolId}
    (hknown : ∀ n ∈ t.nodes, n.outputs ⊆ known) {seeds : List (SymbolId × M)} {flow : SymbolId → M}
    (hflow : ∀ x ∈ known, flow x = sumSeeds seeds x + (t.nodes.map fun n =>
      n.inputs.count (some x) • (n.outputs.map flow).sum).sum) :
    ∀ x ∈ known, flow x = sumPaths t seeds x := by
  intro x
  induction x using h.induction with
  | _ x ih =>
    intro hx
    rw [hflow x hx, h.sumPaths_eq]
    refine congrArg (sumSeeds seeds x + List.sum ·) (List.map_congr_left fun n hn => ?_)
    by_cases hreads : some x ∈ n.inputs
    · rw [List.map_congr_left fun z hz => ih n hn hreads z hz (hknown n hn hz)]
    · rw [List.count_eq_zero.2 hreads, zero_nsmul, zero_nsmul]

end Ascends

end Trace

theorem Tracer.Recorded.ascends {t : Tracer α} (h : t.Recorded) : ∀ n ∈ t.nodes, ∀ z ∈ n.outputs,
    z.index < t.symbols.length ∧ ∀ id, some id ∈ n.inputs → id.index < z.index := by
  induction h with
  | empty => exact nofun
  | @input t type _ ih =>
    intro n hn z hz
    obtain ⟨hlt, hbefore⟩ := ih n hn z hz
    exact ⟨Nat.lt_of_lt_of_le hlt (List.prefix_append t.symbols [type]).length_le, hbefore⟩
  | @call t t' op operands attrs results hrec hcall ih =>
    obtain ⟨bound, types, -, -, howned, -, rfl⟩ := call_eq_ok_iff.1 hcall
    rw [declare_append hrec.capture_eq_none]
    intro n hn z hz
    rcases List.mem_append.1 hn with hn | hn
    · obtain ⟨hlt, hbefore⟩ := ih n hn z hz
      exact ⟨Nat.lt_of_lt_of_le hlt (List.prefix_append t.symbols types).length_le, hbefore⟩
    · obtain rfl := List.mem_singleton.1 hn
      obtain ⟨s, hs, rfl⟩ := List.mem_map.1 hz
      obtain ⟨hle, hlt⟩ := index_of_mem_fresh hs
      refine ⟨List.length_append ▸ hlt, fun id hid => ?_⟩
      obtain ⟨x, hx, hsome⟩ := List.mem_map.1 hid
      obtain ⟨operand, rfl, rfl⟩ := Option.map_eq_some_iff.1 hsome
      exact Nat.lt_of_lt_of_le (index_lt_of_owns (howned operand hx)) hle

theorem Trace.Recorded.ascends {p : Trace α} (h : p.Recorded) : p.Ascends := by
  obtain ⟨t, outputs, ht, hfinish⟩ := h
  obtain ⟨-, -, rfl⟩ := Tracer.finish_eq_ok_iff.1 hfinish
  exact ht.ascends

end TraceSubstitution
