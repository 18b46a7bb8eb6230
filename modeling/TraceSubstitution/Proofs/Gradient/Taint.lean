import TraceSubstitution.Proofs.Gradient.Fragment
import TraceSubstitution.Proofs.Trace.Refusals
import TraceSubstitution.Proofs.Trace.SingleAssignment

/-!
# What depends on a gradient

A call depends on a placeholder if it reads the placeholder or an output of a call that
depends on it: `Node.DependsOn` is reachability among all calls that were accepted while a
capture was open. The capture knows nothing of it. It keeps a list of tainted symbols, and
decides about each call when it is made.

The two agree, whatever calls are made, gradients asked for and contributions added, in
any order (`Tracer.Tainting`). A symbol that is tainted can be reached, since what taints it
was tainted before. A symbol that can be reached is tainted, since symbols that become
tainted are fresh: no earlier call can have read them, so the decision about a call remains
right. So a call is diverted exactly if it depends on a placeholder (`Tracer.divert_exact`).
-/

namespace TraceSubstitution

variable {α : Type}

/-- A symbol can be reached: it is one of the sources, or an output of a call that reads one that
can be reached. -/
inductive Reaches (sources : List SymbolId) (calls : List (Node α)) : SymbolId → Prop where
  | source {id : SymbolId} (h : id ∈ sources) : Reaches sources calls id
  | output {n : Node α} {operand id : SymbolId} (hn : n ∈ calls)
    (hoperand : some operand ∈ n.inputs) (h : Reaches sources calls operand)
    (hid : id ∈ n.outputs) : Reaches sources calls id

/-- The call reads a symbol that can be reached. -/
def Node.DependsOn (n : Node α) (sources : List SymbolId) (calls : List (Node α)) : Prop :=
  ∃ operand, some operand ∈ n.inputs ∧ Reaches sources calls operand

theorem Reaches.mono {sources sources' : List SymbolId} {calls calls' : List (Node α)}
    {id : SymbolId} (h : Reaches sources calls id) (hsources : sources ⊆ sources')
    (hcalls : calls ⊆ calls') : Reaches sources' calls' id := by
  induction h with
  | source h => exact .source (hsources h)
  | output hn hoperand _ hid ih => exact .output (hcalls hn) hoperand ih hid

/-- The outputs of nodes that hold calls are the symbols that the calls were answered with. -/
theorem AcceptedCall.map_outputs {accepted : List (AcceptedCall α)} {calls : List (Node α)}
    (h : List.Forall₂ Holds accepted calls) :
    calls.map (·.outputs) = accepted.map (·.results.map Symbol.id) := by
  induction h with
  | nil => rfl
  | cons hholds _ ih => rw [List.map_cons, List.map_cons, ih, hholds.outputs]

/-- The call in a part of a fragment, if it is one. -/
def BackwardStep.node? : BackwardStep α → Option (Node α)
  | node n => some n
  | accumulate _ _ => none

namespace Fragment

/-- The calls in a fragment, in order. -/
def nodes (f : Fragment α) : List (Node α) := f.steps.filterMap BackwardStep.node?

theorem diverted_eq (f : Fragment α) : f.diverted = f.nodes.flatMap (·.outputs) := by
  unfold diverted nodes
  induction f.steps with
  | nil => rfl
  | cons s steps ih =>
    rw [List.flatMap_cons, ih]
    cases s with
    | node n => rfl
    | accumulate target contribution => rfl

end Fragment

section Capture

variable (c : Capture α) (n : Node α)

@[simp] theorem nodes_divert : (c.divert n).toFragment.nodes = c.toFragment.nodes ++ [n] := by
  simp [Fragment.nodes, Capture.divert, BackwardStep.node?]

@[simp] theorem nodes_accumulate (target contribution : SymbolId) :
    (c.accumulate target contribution).toFragment.nodes = c.toFragment.nodes := by
  simp [Fragment.nodes, Capture.accumulate, BackwardStep.node?]

end Capture

namespace Capture

variable {c c' : Capture α} {n : Node α}

theorem dependsOnGradient_iff :
    c.dependsOnGradient n = true ↔ ∃ id, some id ∈ n.inputs ∧ id ∈ c.tainted := by
  unfold dependsOnGradient
  rw [List.any_eq_true]
  constructor
  · rintro ⟨x, hx, htainted⟩
    cases x with
    | none => exact nomatch htainted
    | some id => exact ⟨id, hx, List.contains_iff_mem.1 htainted⟩
  · rintro ⟨id, hid, htainted⟩
    exact ⟨some id, hid, List.contains_iff_mem.2 htainted⟩

/-- The decision about a call depends on what it reads. -/
theorem dependsOnGradient_congr
    (h : ∀ id, some id ∈ n.inputs → (id ∈ c'.tainted ↔ id ∈ c.tainted)) :
    c'.dependsOnGradient n = c.dependsOnGradient n := by
  rw [Bool.eq_iff_iff, dependsOnGradient_iff, dependsOnGradient_iff]
  exact exists_congr fun id => and_congr_right (h id)

theorem placeholderFor?_eq_none_iff {primal : SymbolId} :
    c.placeholderFor? primal = none ↔ primal ∉ c.toFragment.primals := by
  simp only [placeholderFor?, Option.map_eq_none_iff, List.find?_eq_none, decide_eq_true_eq,
    Fragment.primals, List.mem_map, not_exists, not_and]

end Capture

namespace Tracer

/-- The symbols of a program. -/
def ids (t : Tracer α) : List SymbolId := (List.range t.symbols.length).map SymbolId.mk

theorem mem_ids {t : Tracer α} {id : SymbolId} : id ∈ t.ids ↔ id.index < t.symbols.length := by
  simp only [ids, List.mem_map, List.mem_range]
  exact ⟨fun ⟨i, hi, h⟩ => h ▸ hi, fun h => ⟨id.index, h, rfl⟩⟩

/-- The fresh symbols are those with the next numbers. -/
theorem mem_map_id_fresh {t : Tracer α} {types : List TensorType} {id : SymbolId} :
    id ∈ (t.fresh types).map Symbol.id ↔
      t.symbols.length ≤ id.index ∧ id.index < t.symbols.length + types.length := by
  rw [map_id_fresh, List.mem_map]
  constructor
  · rintro ⟨i, hi, rfl⟩
    exact ⟨Nat.le_add_right _ _, Nat.add_lt_add_left (List.mem_range.1 hi) _⟩
  · rintro ⟨hle, hlt⟩
    refine ⟨id.index - t.symbols.length, List.mem_range.2 (by omega), ?_⟩
    exact congrArg SymbolId.mk (Nat.add_sub_cancel' hle)

/-- The symbols since the program `t₀`: they are the outputs of the calls and the placeholders of
the fragment, and the calls read symbols that the program has. Placeholders stand for the gradients
of different symbols and have their types. -/
structure Accounted (t₀ : Tracer α) (calls : List (Node α)) (t : Tracer α) (f : Fragment α) :
    Prop where
  later : t₀.symbols.length ≤ t.symbols.length
  made : ∀ id, id ∈ calls.flatMap (·.outputs) ++ f.placeholderIds ↔
    t₀.symbols.length ≤ id.index ∧ id.index < t.symbols.length
  read : ∀ n ∈ calls, ∀ id, some id ∈ n.inputs → id.index < t.symbols.length
  primals : f.primals.Nodup
  types : ∀ x ∈ f.placeholders, ∃ type,
    t.symbols[x.1.index]? = some type ∧ t.symbols[x.2.index]? = some type

namespace Accounted

variable {t₀ t t' : Tracer α} {calls : List (Node α)} {f f' : Fragment α} {n : Node α}

theorem start (t : Tracer α) : Accounted t [] t ⟨[], []⟩ where
  later := Nat.le_refl _
  made id := by
    refine ⟨fun hid => absurd hid List.not_mem_nil, fun ⟨hle, hlt⟩ => ?_⟩
    exact absurd (Nat.lt_of_le_of_lt hle hlt) (Nat.lt_irrefl _)
  read _ hn := absurd hn List.not_mem_nil
  primals := .nil
  types _ hx := absurd hx List.not_mem_nil

/-- Types of symbols are kept when symbols are added. -/
theorem types_of_le (h : Accounted t₀ calls t f) (hle : t.symbols <+: t'.symbols) :
    ∀ x ∈ f.placeholders, ∃ type,
      t'.symbols[x.1.index]? = some type ∧ t'.symbols[x.2.index]? = some type := by
  intro x hx
  obtain ⟨type, hplaceholder, hprimal⟩ := h.types x hx
  exact ⟨type, Node.getElem?_of_le hle hplaceholder, Node.getElem?_of_le hle hprimal⟩

/-- Calls and primals are what counts, apart from the number of symbols. -/
theorem congr (h : Accounted t₀ calls t f) (hsymbols : t'.symbols = t.symbols)
    (hplaceholders : f'.placeholders = f.placeholders) : Accounted t₀ calls t' f' := by
  obtain ⟨placeholders, steps⟩ := f
  obtain ⟨placeholders', steps'⟩ := f'
  obtain rfl : placeholders' = placeholders := hplaceholders
  exact ⟨hsymbols ▸ h.later, hsymbols ▸ h.made, hsymbols ▸ h.read, h.primals, hsymbols ▸ h.types⟩

/-- A call: its outputs are the next symbols. -/
theorem call (h : Accounted t₀ calls t f) {types : List TensorType}
    (hread : ∀ id, some id ∈ n.inputs → id.index < t.symbols.length)
    (houtputs : n.outputs = (t.fresh types).map Symbol.id) :
    Accounted t₀ (calls ++ [n]) (t.declare types) f := by
  have hlength : (t.declare types).symbols.length = t.symbols.length + types.length :=
    List.length_append
  have hle : t.symbols.length ≤ (t.declare types).symbols.length := by
    rw [hlength]
    exact Nat.le_add_right _ _
  refine ⟨Nat.le_trans h.later hle, fun id => ?_, fun m hm id hid => ?_, h.primals,
    h.types_of_le (List.prefix_append _ _)⟩
  · have hmem : id ∈ (calls ++ [n]).flatMap (·.outputs) ++ f.placeholderIds ↔
        id ∈ calls.flatMap (·.outputs) ++ f.placeholderIds ∨ id ∈ n.outputs := by
      simp only [List.flatMap_append, List.flatMap_singleton, List.mem_append]
      exact or_right_comm
    have hlater := h.later
    rw [hmem, h.made, houtputs, mem_map_id_fresh, hlength]
    omega
  · rcases List.mem_append.1 hm with hm | hm
    · exact Nat.lt_of_lt_of_le (h.read m hm id hid) hle
    · obtain rfl := List.mem_singleton.1 hm
      exact Nat.lt_of_lt_of_le (hread id hid) hle

/-- A new placeholder: it is the next symbol. -/
theorem addPlaceholder {c : Capture α} (h : Accounted t₀ calls t c.toFragment) {primal : Symbol}
    (howned : t.owns primal = true) (hnew : c.placeholderFor? primal.id = none) :
    Accounted t₀ calls (t.declare [primal.type])
      (c.addPlaceholder t.nextId primal.id).toFragment := by
  have hlength : (t.declare [primal.type]).symbols.length = t.symbols.length + 1 :=
    List.length_append
  have hle : t.symbols.length ≤ (t.declare [primal.type]).symbols.length := by
    rw [hlength]
    exact Nat.le_add_right _ _
  refine ⟨Nat.le_trans h.later hle, fun id => ?_,
    fun n hn id hid => Nat.lt_of_lt_of_le (h.read n hn id hid) hle, ?_, fun x hx => ?_⟩
  · have hnext : id ∈ [t.nextId] ↔ id.index = t.symbols.length := by
      obtain ⟨index⟩ := id
      simp [nextId]
    have hlater := h.later
    rw [placeholderIds_addPlaceholder, ← List.append_assoc, List.mem_append, h.made, hnext, hlength]
    omega
  · rw [primals_addPlaceholder, List.nodup_append]
    refine ⟨h.primals, List.nodup_singleton _, fun id hid id' hid' heq => ?_⟩
    obtain rfl := List.mem_singleton.1 hid'
    exact Capture.placeholderFor?_eq_none_iff.1 hnew (heq ▸ hid)
  · rcases List.mem_append.1 hx with hx | hx
    · exact h.types_of_le (List.prefix_append _ _) x hx
    · obtain rfl := List.mem_singleton.1 hx
      obtain ⟨-, hprimal⟩ := owns_iff.1 howned
      refine ⟨primal.type, ?_, Node.getElem?_of_le (List.prefix_append _ _) hprimal⟩
      exact List.getElem?_concat_length

/-- Calls that read only what is older than the capture reach nothing from its placeholders. -/
theorem reaches_append_iff (h : Accounted t₀ calls t f) {old : List (Node α)}
    (hold : ∀ n ∈ old, ∀ id, some id ∈ n.inputs → id ∈ t₀.ids) {id : SymbolId} :
    Reaches f.placeholderIds (old ++ calls) id ↔ Reaches f.placeholderIds calls id := by
  refine ⟨fun hid => ?_, fun hid => hid.mono (List.Subset.refl _) (List.subset_append_right _ _)⟩
  have hfresh : ∀ {id}, Reaches f.placeholderIds calls id → t₀.symbols.length ≤ id.index := by
    intro id hid
    refine ((h.made id).1 (List.mem_append.2 ?_)).1
    cases hid with
    | source hid => exact .inr hid
    | output hn _ _ hid => exact .inl (List.mem_flatMap.2 ⟨_, hn, hid⟩)
  induction hid with
  | source hid => exact .source hid
  | output hn hoperand _ hid ih =>
    rcases List.mem_append.1 hn with hn | hn
    · exact absurd (mem_ids.1 (hold _ hn _ hoperand)) (Nat.not_lt_of_le (hfresh ih))
    · exact .output hn hoperand ih hid

theorem dependsOn_append_iff (h : Accounted t₀ calls t f) {old : List (Node α)}
    (hold : ∀ n ∈ old, ∀ id, some id ∈ n.inputs → id ∈ t₀.ids) {m : Node α} :
    m.DependsOn f.placeholderIds (old ++ calls) ↔ m.DependsOn f.placeholderIds calls :=
  exists_congr fun _ => and_congr_right fun _ => h.reaches_append_iff hold

end Accounted

/-- While a capture is open that was opened in the program `t₀`: the calls that have been accepted
are in the program or in the capture, as what is tainted demands, and what is tainted can be reached
from the placeholders through these calls. -/
structure Tainting (t₀ : Tracer α) (calls : List (Node α)) (t : Tracer α) (c : Capture α) :
    Prop extends Accounted t₀ calls t c.toFragment where
  capture : t.capture = some c
  /-- A call is in the program if it reads nothing that is tainted. -/
  recorded : t.nodes = t₀.nodes ++ calls.filter (!c.dependsOnGradient ·)
  /-- A call is in the capture if it reads something that is tainted. -/
  diverted : c.toFragment.nodes = calls.filter c.dependsOnGradient
  tainted : ∀ id, id ∈ c.tainted ↔ id ∈ c.toFragment.own
  reached : ∀ id ∈ c.tainted, Reaches c.toFragment.placeholderIds calls id
  closed : BackwardStep.Closed (t₀.ids ++
    (calls.filter (!c.dependsOnGradient ·)).flatMap (·.outputs) ++ c.toFragment.placeholderIds)
      c.steps

namespace Tainting

variable {t₀ t : Tracer α} {calls : List (Node α)} {c c' : Capture α} {n : Node α}

theorem start (t : Tracer α) : Tainting t [] t.beginBackward .empty where
  toAccounted := (Accounted.start t).congr rfl rfl
  capture := rfl
  recorded := (List.append_nil t.nodes).symm
  diverted := rfl
  tainted _ := Iff.rfl
  reached _ hid := absurd hid List.not_mem_nil
  closed := trivial

/-- Every symbol of the program is old, an output of a call in the program, a placeholder, or an
output of a call in the capture. -/
theorem mem_of_lt (h : Tainting t₀ calls t c) {id : SymbolId} (hid : id.index < t.symbols.length) :
    id ∈ t₀.ids ++ (calls.filter (!c.dependsOnGradient ·)).flatMap (·.outputs) ++
      c.toFragment.placeholderIds ++ c.toFragment.diverted := by
  rw [Fragment.diverted_eq, h.diverted]
  by_cases hold : id.index < t₀.symbols.length
  · simp [mem_ids.2 hold]
  · rcases List.mem_append.1 ((h.made id).2 ⟨Nat.le_of_not_lt hold, hid⟩) with hid | hid
    · obtain ⟨n, hn, hid⟩ := List.mem_flatMap.1 hid
      cases hdepends : c.dependsOnGradient n with
      | false =>
        have hmem : id ∈ (calls.filter (!c.dependsOnGradient ·)).flatMap (·.outputs) :=
          List.mem_flatMap.2 ⟨n, List.mem_filter.2 ⟨hn, by rw [hdepends]; rfl⟩, hid⟩
        simp [hmem]
      | true =>
        have hmem : id ∈ (calls.filter c.dependsOnGradient).flatMap (·.outputs) :=
          List.mem_flatMap.2 ⟨n, List.mem_filter.2 ⟨hn, hdepends⟩, hid⟩
        simp [hmem]
    · simp [hid]

/-- The decisions about earlier calls remain right if the symbols that become tainted are fresh. -/
theorem filter_congr (h : Tainting t₀ calls t c)
    (hsame : ∀ id, id.index < t.symbols.length → (id ∈ c'.tainted ↔ id ∈ c.tainted)) :
    calls.filter c'.dependsOnGradient = calls.filter c.dependsOnGradient ∧
      calls.filter (!c'.dependsOnGradient ·) = calls.filter (!c.dependsOnGradient ·) := by
  have hdepends : ∀ n ∈ calls, c'.dependsOnGradient n = c.dependsOnGradient n := fun n hn =>
    Capture.dependsOnGradient_congr fun id hid => hsame id (h.read n hn id hid)
  exact ⟨List.filter_congr hdepends, List.filter_congr fun n hn => congrArg not (hdepends n hn)⟩

/-- A call that reads something tainted goes to the capture. -/
theorem divert (h : Tainting t₀ calls t c) {types : List TensorType}
    (hread : ∀ id, some id ∈ n.inputs → id.index < t.symbols.length)
    (houtputs : n.outputs = (t.fresh types).map Symbol.id)
    (hdepends : c.dependsOnGradient n = true) :
    Tainting t₀ (calls ++ [n]) { t.declare types with capture := some (c.divert n) }
      (c.divert n) := by
  have hsame : ∀ id, id.index < t.symbols.length →
      (id ∈ (c.divert n).tainted ↔ id ∈ c.tainted) := by
    intro id hid
    refine List.mem_append.trans (or_iff_right fun hout => ?_)
    rw [houtputs, mem_map_id_fresh] at hout
    omega
  obtain ⟨hfilter, hfilter'⟩ := h.filter_congr hsame
  have hdepends' : (c.divert n).dependsOnGradient n = true := by
    rw [Capture.dependsOnGradient_congr fun id hid => hsame id (hread id hid), hdepends]
  have hforward : (calls ++ [n]).filter (!(c.divert n).dependsOnGradient ·) =
      calls.filter (!c.dependsOnGradient ·) := by
    rw [List.filter_append, hfilter', List.filter_singleton, hdepends']
    exact List.append_nil _
  refine ⟨(h.toAccounted.call hread houtputs).congr rfl rfl, rfl, ?_, ?_, fun id => ?_,
    fun id hid => ?_, ?_⟩
  · rw [hforward]
    exact h.recorded
  · rw [List.filter_append, hfilter, List.filter_singleton, hdepends', nodes_divert, h.diverted]
    rfl
  · have hid := h.tainted id
    simp only [Fragment.own, diverted_divert, placeholderIds_divert, List.mem_append] at hid ⊢
    rw [Capture.divert, List.mem_append, hid]
    tauto
  · rcases List.mem_append.1 hid with hid | hid
    · obtain ⟨operand, hoperand, htainted⟩ := Capture.dependsOnGradient_iff.1 hdepends
      refine .output (List.mem_append_right _ List.mem_cons_self) hoperand ?_ hid
      exact (h.reached operand htainted).mono (List.Subset.refl _) (List.subset_append_left _ _)
    · exact (h.reached id hid).mono (List.Subset.refl _) (List.subset_append_left _ _)
  · rw [hforward]
    refine (BackwardStep.closed_append_singleton _ _ _).2 ⟨h.closed, fun id hid => ?_⟩
    exact h.mem_of_lt (hread id (List.reduceOption_mem_iff.1 hid))

/-- A call that reads nothing tainted goes to the program. -/
theorem record (h : Tainting t₀ calls t c) {types : List TensorType}
    (hread : ∀ id, some id ∈ n.inputs → id.index < t.symbols.length)
    (houtputs : n.outputs = (t.fresh types).map Symbol.id)
    (hdepends : c.dependsOnGradient n = false) :
    Tainting t₀ (calls ++ [n]) { t.declare types with nodes := t.nodes ++ [n] } c := by
  have hforward : (calls ++ [n]).filter (!c.dependsOnGradient ·) =
      calls.filter (!c.dependsOnGradient ·) ++ [n] := by
    rw [List.filter_append, List.filter_singleton, hdepends]
    rfl
  refine ⟨(h.toAccounted.call hread houtputs).congr rfl rfl, h.capture, ?_, ?_, h.tainted,
    fun id hid => ?_, ?_⟩
  · rw [hforward, ← List.append_assoc, ← h.recorded]
  · rw [List.filter_append, List.filter_singleton, hdepends, h.diverted]
    exact (List.append_nil _).symm
  · exact (h.reached id hid).mono (List.Subset.refl _) (List.subset_append_left _ _)
  · rw [hforward, List.flatMap_append, ← List.append_assoc t₀.ids]
    exact h.closed.mono (append_subset_append (List.subset_append_left _ _) _)

/-- A new placeholder is tainted. -/
theorem addPlaceholder (h : Tainting t₀ calls t c) {primal : Symbol}
    (howned : t.owns primal = true) (hnew : c.placeholderFor? primal.id = none) :
    Tainting t₀ calls
      { t.declare [primal.type] with capture := some (c.addPlaceholder t.nextId primal.id) }
      (c.addPlaceholder t.nextId primal.id) := by
  have hsame : ∀ id, id.index < t.symbols.length →
      (id ∈ (c.addPlaceholder t.nextId primal.id).tainted ↔ id ∈ c.tainted) := by
    intro id hid
    refine List.mem_cons.trans (or_iff_right ?_)
    rintro rfl
    exact Nat.lt_irrefl _ hid
  obtain ⟨hfilter, hfilter'⟩ := h.filter_congr hsame
  refine ⟨(h.toAccounted.addPlaceholder howned hnew).congr rfl rfl, rfl, ?_, ?_, fun id => ?_,
    fun id hid => ?_, ?_⟩
  · rw [hfilter']
    exact h.recorded
  · rw [hfilter]
    exact h.diverted
  · have hid := h.tainted id
    simp only [Fragment.own, diverted_addPlaceholder, placeholderIds_addPlaceholder,
      List.mem_append, List.mem_singleton] at hid ⊢
    rw [Capture.addPlaceholder, List.mem_cons, hid]
    tauto
  · rw [placeholderIds_addPlaceholder]
    rcases List.mem_cons.1 hid with rfl | hid
    · exact .source (List.mem_append_right _ List.mem_cons_self)
    · exact (h.reached id hid).mono (List.subset_append_left _ _) (List.Subset.refl _)
  · rw [hfilter', placeholderIds_addPlaceholder, ← List.append_assoc]
    exact h.closed.mono (List.subset_append_left _ _)

/-- A contribution taints nothing. -/
theorem accumulate (h : Tainting t₀ calls t c) (target : SymbolId) {contribution : SymbolId}
    (hcontribution : contribution.index < t.symbols.length) :
    Tainting t₀ calls { t with capture := some (c.accumulate target contribution) }
      (c.accumulate target contribution) := by
  refine ⟨h.toAccounted.congr rfl rfl, rfl, h.recorded, ?_, fun id => ?_, h.reached, ?_⟩
  · rw [nodes_accumulate]
    exact h.diverted
  · rw [Fragment.own, diverted_accumulate]
    exact h.tainted id
  · refine (BackwardStep.closed_append_singleton _ _ _).2 ⟨h.closed, fun id hid => ?_⟩
    obtain rfl := List.mem_singleton.1 hid
    exact h.mem_of_lt hcontribution

/-- What can be reached is tainted: a call that reads something tainted is in the capture, so that
its outputs are tainted. -/
theorem mem_tainted_of_reaches (h : Tainting t₀ calls t c) {id : SymbolId}
    (hid : Reaches c.toFragment.placeholderIds calls id) : id ∈ c.tainted := by
  induction hid with
  | source hid => exact (h.tainted _).2 (List.mem_append_right _ hid)
  | output hn hoperand _ hid ih =>
    have hdepends := Capture.dependsOnGradient_iff.2 ⟨_, hoperand, ih⟩
    refine (h.tainted _).2 (List.mem_append_left _ ?_)
    rw [Fragment.diverted_eq, h.diverted]
    exact List.mem_flatMap.2 ⟨_, List.mem_filter.2 ⟨hn, hdepends⟩, hid⟩

/-- The capture decides about a call as the placeholders and the calls demand. -/
theorem dependsOnGradient_iff (h : Tainting t₀ calls t c) (n : Node α) :
    c.dependsOnGradient n = true ↔ n.DependsOn c.toFragment.placeholderIds calls := by
  rw [Capture.dependsOnGradient_iff]
  exact exists_congr fun id => and_congr_right fun _ => ⟨h.reached id, h.mem_tainted_of_reaches⟩

/-- A call in the program reads nothing that belongs to the capture. -/
theorem notMem_of_recorded (h : Tainting t₀ calls t c)
    (hn : n ∈ calls.filter (!c.dependsOnGradient ·)) {id : SymbolId} (hid : some id ∈ n.inputs) :
    id ∉ c.toFragment.placeholderIds ++ c.toFragment.diverted := by
  intro hown
  have htainted := (h.tainted id).2 (List.mem_append.2 (List.mem_append.1 hown).symm)
  have htrue := Capture.dependsOnGradient_iff.2 ⟨id, hid, htainted⟩
  obtain ⟨-, hfalse⟩ := List.mem_filter.1 hn
  rw [htrue] at hfalse
  exact Bool.false_ne_true hfalse

/-- Placeholders are fresh. -/
theorem notMem_ids_of_placeholder (h : Tainting t₀ calls t c) {id : SymbolId}
    (hid : id ∈ c.toFragment.placeholderIds) : id ∉ t₀.ids := by
  intro hold
  obtain ⟨hle, -⟩ := (h.made id).1 (List.mem_append_right _ hid)
  exact Nat.not_le_of_lt (mem_ids.1 hold) hle

/-- A gradient that is asked for is that of the placeholder, and has the type of the symbol. -/
theorem mem_placeholders (h : Tainting t₀ calls t c) {primal gradient : Symbol} {t' : Tracer α}
    (hincoming : (incomingGradient primal).apply t = (.ok gradient, t')) :
    gradient.type = primal.type ∧
      ∃ c', t'.capture = some c' ∧ (gradient.id, primal.id) ∈ c'.placeholders := by
  obtain ⟨howned, c₁, hc₁, hcase⟩ := incomingGradient_eq_ok_iff.1 hincoming
  obtain rfl : c₁ = c := Option.some.inj (hc₁.symm.trans h.capture)
  rcases hcase with ⟨existing, hexisting, hsymbol, rfl⟩ | ⟨-, rfl, rfl⟩
  · obtain ⟨⟨placeholder, id⟩, hfind, rfl⟩ := Option.map_eq_some_iff.1 hexisting
    obtain rfl : id = primal.id := by simpa using List.find?_some hfind
    have hmem := List.mem_of_find?_eq_some hfind
    obtain ⟨type, htype, rfl⟩ := map_eq_ok_iff.1 hsymbol
    obtain ⟨type', hplaceholder, hprimal⟩ := h.types _ hmem
    rw [orError_eq_ok_iff] at htype
    obtain rfl := Option.some.inj (htype.symm.trans hplaceholder)
    exact ⟨Option.some.inj (hprimal.symm.trans (owns_iff.1 howned).2), c₁, h.capture, hmem⟩
  · exact ⟨rfl, _, rfl, List.mem_append_right _ List.mem_cons_self⟩

end Tainting

theorem makeAll_append (t : Tracer α) (moves moves' : List (Move α)) :
    t.makeAll (moves ++ moves') = (t.makeAll moves).makeAll moves' := List.foldl_append

/-- The call that a proposal makes, with the symbols it is answered with, if it is a call and is
accepted. -/
def accepted? (t : Tracer α) (x : Proposal α) : Option (AcceptedCall α) :=
  match x, (x.act.apply t).1 with
  | .call op operands attrs, .ok results => some ⟨op, operands, attrs, results⟩
  | _, _ => none

/-- The calls that are accepted when proposals are made one after the other. -/
def acceptedCalls (t : Tracer α) : List (Proposal α) → List (AcceptedCall α)
  | [] => []
  | x :: proposals => (t.accepted? x).toList ++ (t.make (.propose x)).acceptedCalls proposals

namespace Tainting

variable {t₀ t : Tracer α} {calls : List (Node α)} {c : Capture α}

/-- A call that is accepted. -/
theorem call (h : Tainting t₀ calls t c) {op : NodeOp α} {operands : List (Option Symbol)}
    {attrs : Attrs} {results : List Symbol} {t' : Tracer α}
    (hcall : (Tracer.call op operands attrs).apply t = (.ok results, t')) :
    ∃ c' n, Tainting t₀ (calls ++ [n]) t' c' ∧
      AcceptedCall.Holds ⟨op, operands, attrs, results⟩ n := by
  obtain ⟨bound, types, hbound, htypes, howned, rfl, rfl⟩ := call_eq_ok_iff.1 hcall
  let n : Node α := ⟨op, operands.map (·.map Symbol.id), bound, (t.fresh types).map Symbol.id⟩
  have hread : ∀ id, some id ∈ n.inputs → id.index < t.symbols.length := by
    intro id hid
    obtain ⟨x, hx, hsome⟩ := List.mem_map.1 hid
    obtain ⟨s, rfl, rfl⟩ := Option.map_eq_some_iff.1 hsome
    exact index_lt_of_owns (howned s hx)
  have hholds : AcceptedCall.Holds ⟨op, operands, attrs, t.fresh types⟩ n :=
    ⟨rfl, rfl, rfl, hbound, (map_type_fresh (t := t) types).symm ▸ htypes⟩
  have happend : (t.declare types).append n =
      if c.dependsOnGradient n then { t.declare types with capture := some (c.divert n) }
      else { t.declare types with nodes := t.nodes ++ [n] } := by
    have hcapture : (t.declare types).capture = some c := h.capture
    unfold append
    simp only [hcapture]
    rfl
  change ∃ c' n', Tainting t₀ (calls ++ [n']) ((t.declare types).append n) c' ∧ _
  rw [happend]
  cases hdepends : c.dependsOnGradient n with
  | true => exact ⟨_, n, h.divert hread rfl hdepends, hholds⟩
  | false => exact ⟨c, n, h.record hread rfl hdepends, hholds⟩

/-- A proposal, accepted or refused. -/
theorem make (h : Tainting t₀ calls t c) (x : Proposal α) : ∃ c' more,
    Tainting t₀ (calls ++ more) (t.make (.propose x)) c' ∧
      List.Forall₂ AcceptedCall.Holds (t.accepted? x).toList more := by
  rw [make_propose]
  rcases hx : x.act.apply t with ⟨e | results, t'⟩
  · obtain rfl := x.atomic_act hx
    have hnone : t'.accepted? x = none := by
      unfold accepted?
      rw [hx]
      cases x <;> rfl
    rw [hnone]
    exact ⟨c, [], (List.append_nil calls).symm ▸ h, .nil⟩
  · cases x with
    | call op operands attrs =>
      obtain ⟨c', n, hnext, hholds⟩ := h.call hx
      have hsome : t.accepted? (.call op operands attrs) = some ⟨op, operands, attrs, results⟩ := by
        unfold accepted?
        rw [hx]
      rw [hsome]
      exact ⟨c', [n], hnext, .cons hholds .nil⟩
    | incoming primal =>
      obtain ⟨s, t₁, hs, hpure⟩ := Act.apply_bind_eq_ok_iff.1 hx
      obtain rfl : t₁ = t' := (Prod.mk.inj hpure).2
      obtain ⟨howned, c₁, hc₁, hcase⟩ := incomingGradient_eq_ok_iff.1 hs
      obtain rfl : c₁ = c := Option.some.inj (hc₁.symm.trans h.capture)
      rcases hcase with ⟨_, -, -, rfl⟩ | ⟨hnew, -, rfl⟩
      · exact ⟨c₁, [], (List.append_nil calls).symm ▸ h, .nil⟩
      · exact ⟨_, [], (List.append_nil calls).symm ▸ h.addPlaceholder howned hnew, .nil⟩
    | accumulate target contribution =>
      obtain ⟨⟨⟩, t₁, hs, hpure⟩ := Act.apply_bind_eq_ok_iff.1 hx
      obtain rfl : t₁ = t' := (Prod.mk.inj hpure).2
      obtain ⟨-, howned, -, c₁, hc₁, rfl⟩ := accumulateGradient_eq_ok_iff.1 hs
      obtain rfl : c₁ = c := Option.some.inj (hc₁.symm.trans h.capture)
      exact ⟨_, [], (List.append_nil calls).symm ▸
        h.accumulate target.id (index_lt_of_owns howned), .nil⟩

/-- Any number of proposals. -/
theorem makeAll (h : Tainting t₀ calls t c) (proposals : List (Proposal α)) : ∃ c' more,
    Tainting t₀ (calls ++ more) (t.makeAll (proposals.map .propose)) c' ∧
      List.Forall₂ AcceptedCall.Holds (t.acceptedCalls proposals) more := by
  induction proposals generalizing t calls c with
  | nil => exact ⟨c, [], (List.append_nil calls).symm ▸ h, .nil⟩
  | cons x proposals ih =>
    obtain ⟨c₁, first, h₁, hfirst⟩ := h.make x
    obtain ⟨c', rest, h', hrest⟩ := ih h₁
    exact ⟨c', first ++ rest, (List.append_assoc calls first rest) ▸ h',
      List.rel_append hfirst hrest⟩

/-- A placeholder that a question for a gradient was answered with is there at the end. -/
theorem mem_placeholders_makeAll (h : Tainting t₀ calls t c) {primal gradient : Symbol}
    {t' : Tracer α} (hincoming : (incomingGradient primal).apply t = (.ok gradient, t'))
    {after : List (Proposal α)} {c' : Capture α}
    (hc' : (t.makeAll ((.incoming primal :: after).map .propose)).capture = some c') :
    gradient.type = primal.type ∧ (gradient.id, primal.id) ∈ c'.placeholders := by
  obtain ⟨htype, c₁, hc₁, hmem⟩ := h.mem_placeholders hincoming
  rw [List.map_cons, makeAll_cons, make_propose] at hc'
  unfold Proposal.act at hc'
  rw [Act.apply_map, hincoming] at hc'
  obtain ⟨c₂, hc₂, hgrows⟩ := (t'.appends_makeAll after).captured c₁ hc₁
  obtain rfl : c₂ = c' := Option.some.inj (hc₂.symm.trans hc')
  exact ⟨htype, hgrows.placeholders.subset hmem⟩

end Tainting

open Classical in
/-- What is left of a capture that was opened in any program, after any calls, questions for
gradients and contributions, of which some may have been refused. The calls that were accepted have
been divided: those that depend on a placeholder of the capture are in its fragment, and the others
are in the program, both in their order. So a call in the program reads no placeholder of the
fragment and no output of its calls. Whatever is read in the fragment is a symbol from before, an
output of a call that went to the program since then, a placeholder, or an output of an earlier call
of the fragment. There is one placeholder for each symbol whose gradient was asked for, it is fresh,
has the type of the symbol, and is the answer whenever that gradient was asked for. -/
theorem divert_exact (t₀ : Tracer α) (proposals : List (Proposal α)) :
    let t := t₀.beginBackward.makeAll (proposals.map .propose)
    let f := t.endBackward.1
    let p := t.endBackward.2
    (∃ calls : List (Node α),
      let forward := calls.filter fun n => ¬n.DependsOn f.placeholderIds calls
      List.Forall₂ AcceptedCall.Holds (t₀.beginBackward.acceptedCalls proposals) calls ∧
      p.nodes = t₀.nodes ++ forward ∧
      f.nodes = calls.filter (fun n => n.DependsOn f.placeholderIds calls) ∧
      (∀ old : List (Node α), (∀ n ∈ old, ∀ id, some id ∈ n.inputs → id ∈ t₀.ids) → ∀ n : Node α,
        n.DependsOn f.placeholderIds (old ++ calls) ↔ n.DependsOn f.placeholderIds calls) ∧
      (∀ n ∈ forward, ∀ id, some id ∈ n.inputs → id ∉ f.placeholderIds ++ f.diverted) ∧
      BackwardStep.Closed (t₀.ids ++ forward.flatMap (·.outputs) ++ f.placeholderIds) f.steps) ∧
    f.primals.Nodup ∧
    (∀ x ∈ f.placeholders, x.1 ∉ t₀.ids ∧ ∃ type,
      p.symbols[x.1.index]? = some type ∧ p.symbols[x.2.index]? = some type) ∧
    ∀ before primal after, proposals = before ++ .incoming primal :: after → ∀ gradient t',
      (incomingGradient primal).apply (t₀.beginBackward.makeAll (before.map .propose)) =
        (.ok gradient, t') →
      gradient.type = primal.type ∧ (gradient.id, primal.id) ∈ f.placeholders := by
  intro t f p
  obtain ⟨c, calls, h, hcalls⟩ := (Tainting.start t₀).makeAll proposals
  rw [List.nil_append] at h
  have hf : f = c.toFragment := by
    change (t.capture.map Capture.toFragment).getD _ = _
    rw [h.capture]
    rfl
  have hdepends : ∀ n, c.dependsOnGradient n =
      decide (n.DependsOn c.toFragment.placeholderIds calls) := fun n =>
    (Bool.eq_iff_iff.2 ((h.dependsOnGradient_iff n).trans decide_eq_true_iff.symm))
  have hforward : (calls.filter fun n => ¬n.DependsOn c.toFragment.placeholderIds calls) =
      calls.filter (!c.dependsOnGradient ·) :=
    List.filter_congr fun n _ => by rw [hdepends, decide_not]
  rw [hf]
  refine ⟨⟨calls, hcalls, ?_, ?_, fun old hold n => h.dependsOn_append_iff hold,
    fun n hn id hid => ?_, ?_⟩, h.primals,
    fun x hx => ⟨h.notMem_ids_of_placeholder (List.mem_map_of_mem hx), h.types x hx⟩, ?_⟩
  · rw [hforward]
    exact h.recorded
  · rw [h.diverted]
    exact List.filter_congr fun n _ => hdepends n
  · rw [hforward] at hn
    exact h.notMem_of_recorded hn hid
  · rw [hforward]
    exact h.closed
  · rintro before primal after rfl gradient t' hincoming
    obtain ⟨c₁, earlier, h₁, -⟩ := (Tainting.start t₀).makeAll before
    have hcapture := h.capture
    rw [List.map_append, makeAll_append] at hcapture
    exact h₁.mem_placeholders_makeAll hincoming hcapture

/-- The gradient of an input is asked for, and then that of a symbol that depends on it. Of two
calls the one that reads the first placeholder is diverted; a call with a symbol of another program
is refused. -/
theorem divert_exact_sum :
    let t₀ : Tracer Float32 := ((Tracer.empty ⟨0⟩).input oneNumber).2
    let x (trace number : Nat) : Symbol := ⟨⟨trace⟩, ⟨number⟩, oneNumber⟩
    let add (a b : Symbol) : Proposal Float32 := .call (.kernel Core.add) [some a, some b] .empty
    let proposals := [.incoming (x 0 0), add (x 0 0) (x 0 0), add (x 0 1) (x 0 2),
      .incoming (x 0 3), add (x 0 0) (x 1 0), .accumulate (x 0 0) (x 0 3)]
    let t := t₀.beginBackward.makeAll (proposals.map .propose)
    let f := t.endBackward.1
    let p := t.endBackward.2
    f.placeholders = [(⟨1⟩, ⟨0⟩), (⟨4⟩, ⟨3⟩)] ∧
    p.nodes.map (·.outputs) = [[⟨2⟩]] ∧ f.nodes.map (·.outputs) = [[⟨3⟩]] ∧
    ∃ calls : List (Node Float32), calls.map (·.outputs) = [[⟨2⟩], [⟨3⟩]] ∧
      (∀ n ∈ p.nodes, ¬n.DependsOn f.placeholderIds calls) ∧
      ∀ n ∈ f.nodes, n.DependsOn f.placeholderIds calls := by
  intro t₀ x add proposals t f p
  obtain ⟨⟨calls, hcalls, hforward, hdiverted, -⟩, -⟩ := divert_exact t₀ proposals
  refine ⟨by decide +kernel, by decide +kernel, by decide +kernel, calls, ?_, fun n hn => ?_,
    fun n hn => ?_⟩
  · rw [AcceptedCall.map_outputs hcalls]
    decide +kernel
  · rw [show p.nodes = _ from hforward] at hn
    simpa using (List.mem_filter.1 hn).2
  · rw [show f.nodes = _ from hdiverted] at hn
    simpa using (List.mem_filter.1 hn).2

end Tracer

end TraceSubstitution
