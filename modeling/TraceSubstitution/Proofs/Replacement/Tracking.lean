import TraceSubstitution.Proofs.Replacement.Progress
import TraceSubstitution.Proofs.Trace.Calling

/-!
# Programs under way that keep types

While a replacer goes through a recorded source, the symbols that stand for those
of the source have their types, so every call can be made. Some symbols of the new
program stand for nothing in the source. These are hidden: no call of the forward
part reads them. `Progress.Tracks` says both, and it is kept whenever one call
takes the place of a call of the source.
-/

namespace TraceSubstitution

variable {α : Type}

/-- Every number in the list gets a value that fits it. -/
theorem SymbolMap.exists_get?_insertAll {β : Type} {P : SymbolId → β → Prop} {ids : List SymbolId}
    {xs : List β} (h : List.Forall₂ P ids xs) (m : SymbolMap β) :
    ∀ id ∈ ids, ∃ x ∈ xs, (m.insertAll ids xs).get? id = some x ∧ P id x := by
  induction h generalizing m with
  | nil => exact fun id hid => absurd hid List.not_mem_nil
  | @cons first x ids xs hfirst _ ih =>
    intro id hid
    by_cases hlater : id ∈ ids
    · obtain ⟨y, hy, hget, hfits⟩ := ih (m.insert first x) id hlater
      exact ⟨y, List.mem_cons_of_mem x hy, hget, hfits⟩
    · obtain rfl : id = first := by
        rcases List.mem_cons.1 hid with heq | hmem
        · exact heq
        · exact absurd hmem hlater
      refine ⟨x, List.mem_cons_self, ?_, hfirst⟩
      rw [insertAll_cons, get?_insertAll_of_notMem hlater, get?_insert, if_pos rfl]

namespace Tracer

/-- The program has the symbol, and it is not hidden. -/
def Shows (t : Tracer α) (hidden : List SymbolId) (id : SymbolId) : Prop :=
  id.index < t.symbols.length ∧ id ∉ hidden

theorem Shows.mono {t t' : Tracer α} {hidden more : List SymbolId} {id : SymbolId}
    (h : t.Shows hidden id) (hle : t.symbols <+: t'.symbols)
    (hmore : ∀ x ∈ more, t.symbols.length ≤ x.index) : t'.Shows (hidden ++ more) id := by
  refine ⟨Nat.lt_of_lt_of_le h.1 hle.length_le, fun hmem => ?_⟩
  rcases List.mem_append.1 hmem with hmem | hmem
  · exact h.2 hmem
  · exact absurd h.1 (Nat.not_lt.2 (hmore id hmem))

/-- The second program has one call more, whose outputs are the next symbols. The first of them has
the given type. -/
structure Advances (t : Tracer α) (n : Node α) (output : TensorType) (t' : Tracer α) : Prop where
  id : t'.id = t.id
  nodes : t'.nodes = t.nodes ++ [n]
  capture : t'.capture = none
  symbols : ∃ more rest, n.outputs = (t.fresh (output :: more)).map Symbol.id ∧
    t'.symbols = t.symbols ++ (output :: more) ++ rest

namespace Advances

variable {t t' : Tracer α} {n : Node α} {output : TensorType}

theorem le (h : t.Advances n output t') : t.symbols <+: t'.symbols := by
  obtain ⟨more, rest, -, hsymbols⟩ := h.symbols
  rw [hsymbols, List.append_assoc]
  exact List.prefix_append _ _

theorem owns (h : t.Advances n output t') : t'.owns ⟨t.id, t.nextId, output⟩ = true := by
  obtain ⟨more, rest, -, hsymbols⟩ := h.symbols
  refine owns_iff.2 ⟨h.id.symm, ?_⟩
  rw [hsymbols]
  simp [nextId]

theorem outputs_eq (h : t.Advances n output t') : n.outputs = t.nextId :: n.outputs.tail := by
  obtain ⟨more, rest, houtputs, -⟩ := h.symbols
  rw [houtputs]
  rfl

theorem nodup (h : t.Advances n output t') : n.outputs.Nodup := by
  obtain ⟨more, rest, houtputs, -⟩ := h.symbols
  rw [houtputs]
  exact nodup_map_id_fresh _

theorem index_of_mem (h : t.Advances n output t') {id : SymbolId} (hid : id ∈ n.outputs) :
    t.symbols.length ≤ id.index ∧ id.index < t'.symbols.length := by
  obtain ⟨more, rest, houtputs, hsymbols⟩ := h.symbols
  rw [houtputs] at hid
  obtain ⟨s, hs, rfl⟩ := List.mem_map.1 hid
  obtain ⟨hle, hlt⟩ := index_of_mem_fresh hs
  refine ⟨hle, Nat.lt_of_lt_of_le hlt ?_⟩
  rw [hsymbols]
  simp

/-- The other outputs may be hidden: the first one is not among them. -/
theorem notMem_tail (h : t.Advances n output t') : t.nextId ∉ n.outputs.tail := by
  have hnodup := h.nodup
  rw [h.outputs_eq] at hnodup
  exact (List.nodup_cons.1 hnodup).1

theorem shows (h : t.Advances n output t') {hidden : List SymbolId} {id : SymbolId}
    (hid : t.Shows hidden id) : t'.Shows (hidden ++ n.outputs.tail) id :=
  hid.mono h.le fun _ hx => (h.index_of_mem (List.mem_of_mem_tail hx)).1

end Advances

end Tracer

namespace Progress

/-- What stands for known symbols of the source has their types and is not hidden, and no call reads
what is hidden. -/
structure Tracks (source : List TensorType) (known hidden : List SymbolId) (p : Progress α) :
    Prop where
  capture : p.tracer.capture = none
  stands : ∀ id ∈ known, ∃ s, p.symbols.get? id = some s ∧ p.tracer.owns s = true ∧
    source[id.index]? = some s.type ∧ s.id ∉ hidden
  bound : ∀ id ∈ hidden, id.index < p.tracer.symbols.length
  nodup : hidden.Nodup
  reads : ∀ n ∈ p.tracer.nodes, ∀ id, some id ∈ n.inputs → p.tracer.Shows hidden id

namespace Tracks

variable {source : List TensorType} {known hidden : List SymbolId} {p : Progress α}

theorem exists_symbols (h : p.Tracks source known hidden) {ids : List SymbolId} (hids : ids ⊆ known) :
    ∃ symbols, ids.mapM p.symbolFor = .ok symbols ∧
      ∀ s ∈ symbols, p.tracer.owns s = true ∧ s.id ∉ hidden := by
  induction ids with
  | nil => exact ⟨[], rfl, fun s hs => absurd hs List.not_mem_nil⟩
  | cons id ids ih =>
    obtain ⟨hid, hids⟩ := List.cons_subset.1 hids
    obtain ⟨s, hget, howned, -, hshown⟩ := h.stands id hid
    obtain ⟨symbols, hsymbols, hall⟩ := ih hids
    refine ⟨s :: symbols, ?_, List.forall_mem_cons.2 ⟨⟨howned, hshown⟩, hall⟩⟩
    rw [symbolsFor_eq_ok_iff] at hsymbols ⊢
    rw [List.map_cons, List.map_cons, hget, hsymbols]

/-- There is something that stands for every operand, and it has the type of the operand. -/
theorem exists_operands (h : p.Tracks source known hidden) {n : Node α}
    {types : List (Option TensorType)}
    (htypes : n.inputs.map (·.map fun id => source[id.index]?) = types.map (·.map some))
    (hknown : ∀ id, some id ∈ n.inputs → id ∈ known) :
    ∃ operands, p.operandsFor n = .ok operands ∧ operands.map (·.map Symbol.type) = types ∧
      ∀ s, some s ∈ operands → p.tracer.owns s = true ∧ s.id ∉ hidden := by
  simp only [operandsFor_eq_ok_iff]
  revert hknown htypes
  generalize n.inputs = inputs
  intro htypes hknown
  induction inputs generalizing types with
  | nil =>
    obtain rfl : types = [] := List.map_eq_nil_iff.1 htypes.symm
    exact ⟨[], rfl, rfl, fun s hs => absurd hs List.not_mem_nil⟩
  | cons x inputs ih =>
    cases types with
    | nil => exact absurd htypes (List.cons_ne_nil _ _)
    | cons type types =>
      obtain ⟨htype, htypes⟩ := List.cons_eq_cons.1 htypes
      obtain ⟨operands, hoperands, hsame, hall⟩ :=
        ih htypes fun id hid => hknown id (List.mem_cons_of_mem x hid)
      cases x with
      | none =>
        obtain rfl : type = none := Option.map_eq_none_iff.1 htype.symm
        refine ⟨none :: operands, ?_, ?_, fun s hs => ?_⟩
        · rw [List.map_cons, List.map_cons, hoperands, Option.map_none, Option.map_none]
        · rw [List.map_cons, hsame, Option.map_none]
        · rcases List.mem_cons.1 hs with hs | hs
          · exact absurd hs (Option.some_ne_none s)
          · exact hall s hs
      | some id =>
        obtain ⟨s, hget, howned, hs, hshown⟩ := h.stands id (hknown id List.mem_cons_self)
        have htype : some source[id.index]? = type.map some := htype
        obtain ⟨type, rfl, heq⟩ := Option.map_eq_some_iff.1 htype.symm
        obtain rfl : type = s.type := Option.some.inj (heq.trans hs)
        refine ⟨some s :: operands, ?_, ?_, fun s' hs' => ?_⟩
        · rw [List.map_cons, List.map_cons, hoperands, Option.map_some, Option.map_some, hget]
        · rw [List.map_cons, hsame, Option.map_some]
        · rcases List.mem_cons.1 hs' with hs' | hs'
          · exact Option.some.inj hs' ▸ ⟨howned, hshown⟩
          · exact hall s' hs'

theorem shows_of_owns {s : Symbol} (howned : p.tracer.owns s = true) (hshown : s.id ∉ hidden) :
    p.tracer.Shows hidden s.id := ⟨Tracer.index_lt_of_owns howned, hshown⟩

/-- Symbols that come after the hidden ones are shown. -/
theorem shows_of_later (h : p.Tracks source known hidden) {n : Node α} {t' : Tracer α}
    {id : SymbolId} (hle : p.tracer.symbols.length ≤ id.index) (hlt : id.index < t'.symbols.length)
    (htail : id ∉ n.outputs.tail) : t'.Shows (hidden ++ n.outputs.tail) id := by
  refine ⟨hlt, fun hmem => ?_⟩
  rcases List.mem_append.1 hmem with hmem | hmem
  · exact absurd (h.bound id hmem) (Nat.not_lt.2 hle)
  · exact htail hmem

theorem shows_nextId (h : p.Tracks source known hidden) {n : Node α} {output : TensorType}
    {t' : Tracer α} (hadvances : p.tracer.Advances n output t') :
    t'.Shows (hidden ++ n.outputs.tail) p.tracer.nextId :=
  h.shows_of_later (Nat.le_refl _)
    (Tracer.index_lt_of_owns hadvances.owns) hadvances.notMem_tail

theorem shows_of_operands {operands : List (Option Symbol)}
    (howned : ∀ s, some s ∈ operands → p.tracer.owns s = true ∧ s.id ∉ hidden) {id : SymbolId}
    (hid : some id ∈ operands.map (·.map Symbol.id)) : p.tracer.Shows hidden id := by
  obtain ⟨x, hx, heq⟩ := List.mem_map.1 hid
  obtain ⟨s, rfl, rfl⟩ := Option.map_eq_some_iff.1 heq
  exact shows_of_owns (howned s hx).1 (howned s hx).2

/-- One call takes the place of a call of the source; its further outputs are hidden. -/
theorem advance (h : p.Tracks source known hidden) {n : Node α} {output : TensorType}
    {t' : Tracer α} (hadvances : p.tracer.Advances n output t') {id : SymbolId}
    (hid : source[id.index]? = some output)
    (hreads : ∀ x, some x ∈ n.inputs → p.tracer.Shows hidden x) (report : Report) :
    Tracks source (known ++ [id]) (hidden ++ n.outputs.tail)
      ⟨t', p.symbols.insert id ⟨p.tracer.id, p.tracer.nextId, output⟩, report⟩ := by
  refine ⟨hadvances.capture, fun other hother => ?_, fun x hx => ?_, ?_, fun m hm x hx => ?_⟩
  · by_cases heq : other = id
    · refine ⟨⟨p.tracer.id, p.tracer.nextId, output⟩, ?_, hadvances.owns, heq ▸ hid,
        (h.shows_nextId hadvances).2⟩
      rw [SymbolMap.get?_insert, if_pos heq]
    · have hmem : other ∈ known := by
        rcases List.mem_append.1 hother with hmem | hmem
        · exact hmem
        · exact absurd (List.mem_singleton.1 hmem) heq
      obtain ⟨s, hget, howned, htype, hshown⟩ := h.stands other hmem
      refine ⟨s, ?_, Tracer.owns_of_le howned hadvances.le hadvances.id, htype,
        (hadvances.shows (shows_of_owns howned hshown)).2⟩
      rw [SymbolMap.get?_insert, if_neg heq, hget]
  · rcases List.mem_append.1 hx with hx | hx
    · exact Nat.lt_of_lt_of_le (h.bound x hx) hadvances.le.length_le
    · exact (hadvances.index_of_mem (List.mem_of_mem_tail hx)).2
  · refine List.nodup_append.2 ⟨h.nodup, hadvances.nodup.tail, fun x hx y hy heq => ?_⟩
    have hlater := (hadvances.index_of_mem (List.mem_of_mem_tail hy)).1
    exact absurd (h.bound x hx) (Nat.not_lt.2 (heq ▸ hlater))
  · have hm : m ∈ p.tracer.nodes ++ [n] := hadvances.nodes ▸ hm
    rcases List.mem_append.1 hm with hm | hm
    · exact hadvances.shows (h.reads m hm x hx)
    · rw [List.mem_singleton.1 hm] at hx
      exact hadvances.shows (hreads x hx)

end Tracks

/-- The beginning of a program for a recorded source. -/
theorem exists_start (id : TraceId) {source : Trace α} (h : source.Recorded) :
    ∃ p, start id source = .ok p ∧ p.report = [] ∧ p.tracer.nodes = [] ∧
      p.Tracks source.symbols source.inputs [] := by
  obtain ⟨types, htypes⟩ := h.exists_inputTypes
  let t : Tracer α := .empty id
  refine ⟨_, start_eq_ok_iff.2 ⟨types, htypes, rfl⟩, rfl, rfl, rfl, ?_,
    fun x hx => absurd hx List.not_mem_nil, .nil, fun n hn => absurd hn List.not_mem_nil⟩
  have hfresh : source.inputs.map source.typeOf? = (t.fresh types).map fun s => some s.type := by
    have hmap := congrArg (List.map some) (Tracer.map_type_fresh (t := t) types)
    rw [List.map_map] at hmap
    exact htypes.trans hmap.symm
  rw [← List.forall₂_eq_eq_eq, List.forall₂_map_left_iff, List.forall₂_map_right_iff] at hfresh
  intro x hx
  obtain ⟨s, hs, hget, htype⟩ := SymbolMap.exists_get?_insertAll hfresh .empty x hx
  exact ⟨s, hget, Tracer.owns_declare hs, htype, List.not_mem_nil⟩

end Progress

end TraceSubstitution
