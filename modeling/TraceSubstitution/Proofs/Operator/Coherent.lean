import TraceSubstitution.Proofs.Operator.Canonical

/-!
# Coherent signatures

Bound static arguments are bound again to themselves unless some parameter does not
accept what has been bound to its name (`Signature.Built.bindAttrs_again`). No supplied
value causes that where names are distinct. But the builders let a default pass that its
kind does not accept, and they let a name be declared twice.

The signatures without such a defect are the coherent ones (`Signature.Coherent`): those
whose bound static arguments can always be bound again (`Signature.bindAttrs_again_iff`).
Where names are distinct, coherence means that every default is accepted
(`Signature.coherent_iff`).
-/

namespace TraceSubstitution

namespace Dict

variable {β : Type}

/-- The dictionary without the value under `name`. -/
def without (d : Dict β) (name : String) : Dict β :=
  ⟨d.entries.filter fun e => decide (e.1 ≠ name), d.sorted.filter _⟩

theorem get?_without (d : Dict β) (name other : String) :
    (d.without name).get? other = if other ≠ name then d.get? other else none := by
  unfold without get?
  rw [lookupEntry_filter fun n => decide (n ≠ name)]
  simp

theorem mem_of_lookupEntry {name : String} {v : β} {entries : List (String × β)}
    (h : lookupEntry name entries = some v) : (name, v) ∈ entries := by
  induction entries with
  | nil => exact nomatch h
  | cons e entries ih =>
    rw [lookupEntry_cons] at h
    split at h
    · next hname =>
      obtain rfl := Option.some.inj h
      exact hname ▸ List.mem_cons_self
    · exact List.mem_cons_of_mem e (ih h)

theorem lookupEntry_of_mem {name : String} {v : β} {entries : List (String × β)}
    (hnodup : (entries.map (·.1)).Nodup) (h : (name, v) ∈ entries) :
    lookupEntry name entries = some v := by
  induction entries with
  | nil => exact nomatch h
  | cons e entries ih =>
    obtain ⟨hfresh, hnodup⟩ := List.nodup_cons.1 hnodup
    rw [lookupEntry_cons]
    rcases List.mem_cons.1 h with rfl | h
    · exact if_pos rfl
    · rw [if_neg, ih hnodup h]
      rintro rfl
      exact hfresh (List.mem_map.2 ⟨(e.1, v), h, rfl⟩)

end Dict

/-- A value of a kind. -/
def AttrKind.anyValue : AttrKind → AttrValue
  | bool => .bool false
  | int => .int 0
  | float => .float 0
  | optionalFloat => .unset

theorem AttrKind.takes_anyValue (k : AttrKind) : k.Takes k.anyValue := by cases k <;> constructor

namespace Signature

variable {s : Signature} {op : String} {attrs bound : Attrs}

/-- Every parameter of a name accepts what can be bound to the name: the values that all of them
accept, widened for the last one, and its default if all of them have defaults. -/
structure Coherent (s : Signature) : Prop where
  supplied : ∀ p ∈ s.attrs, ∀ q, s.param? p.name = some q → ∀ v,
    (∀ r ∈ s.attrs, r.name = p.name → r.kind.Takes v) → p.kind.Takes (v.widen q.kind)
  defaults : ∀ p ∈ s.attrs, ∀ q, s.param? p.name = some q → ∀ d, q.default = some d →
    (∀ r ∈ s.attrs, r.name = p.name → r.default.isSome = true) → p.kind.Takes d

/-- What is bound to a name is the value that the last parameter of the name has in the call. -/
theorem get?_of_param? (h : s.bindAttrs op attrs = .ok bound) {name : String} {q : AttrParam}
    (hq : s.param? name = some q) : bound.get? name = q.value? attrs := by
  have hget := get?_bindAttrs h name
  rw [hq] at hget
  obtain ⟨v, hv, hget⟩ := hget
  rw [hget, value?_of_bindAttr hv]

theorem exists_param? {p : AttrParam} (hp : p ∈ s.attrs) : ∃ q, s.param? p.name = some q := by
  rw [← Option.isSome_iff_exists]
  unfold param?
  rw [List.find?_isSome]
  exact ⟨p, List.mem_reverse.2 hp, by simp⟩

theorem Coherent.bindAttrs_again (hs : s.Built) (hcoherent : s.Coherent)
    (h : s.bindAttrs op attrs = .ok bound) : s.bindAttrs op bound = .ok bound := by
  rcases hs.bindAttrs_again h with hagain | ⟨p, hp, v, hget, hrefused, -⟩
  · exact hagain
  · have hfits := exists_bindAttrs_iff.1 ⟨bound, h⟩
    obtain ⟨q, hq⟩ := exists_param? hp
    obtain ⟨hmem, hname⟩ := mem_of_param? hq
    have htakes : p.kind.Takes v := by
      rw [get?_of_param? h hq] at hget
      unfold AttrParam.value? at hget
      rw [hname] at hget
      split at hget
      · next u hu =>
        obtain rfl := Option.some.inj hget
        exact hcoherent.supplied p hp q hq u fun r hr hrname => hfits.taken r hr u (hrname ▸ hu)
      · next hnone =>
        exact hcoherent.defaults p hp q hq v hget fun r hr hrname =>
          hfits.complete r hr (hrname ▸ hnone)
    rw [AttrKind.accepts_iff_takes.2 htakes] at hrefused
    exact nomatch hrefused

theorem Fits.insert (hfits : s.Fits attrs) {p : AttrParam} (hp : p ∈ s.attrs) {v : AttrValue}
    (hv : ∀ r ∈ s.attrs, r.name = p.name → r.kind.Takes v) : s.Fits (attrs.insert p.name v) := by
  refine ⟨fun name w hw => ?_, fun r hr w hw => ?_, fun r hr hnone => ?_⟩
  · rw [Dict.get?_insert] at hw
    split at hw
    · next heq => exact declares_iff.2 ⟨p, hp, heq.symm⟩
    · exact hfits.declared name w hw
  · rw [Dict.get?_insert] at hw
    split at hw
    · next heq => exact Option.some.inj hw ▸ hv r hr heq
    · exact hfits.taken r hr w hw
  · rw [Dict.get?_insert] at hnone
    split at hnone
    · exact nomatch hnone
    · exact hfits.complete r hr hnone

theorem Fits.without (hfits : s.Fits attrs) {name : String}
    (hdefaults : ∀ r ∈ s.attrs, r.name = name → r.default.isSome = true) :
    s.Fits (attrs.without name) := by
  refine ⟨fun other w hw => ?_, fun r hr w hw => ?_, fun r hr hnone => ?_⟩
  · rw [Dict.get?_without] at hw
    split at hw
    · exact hfits.declared other w hw
    · exact nomatch hw
  · rw [Dict.get?_without] at hw
    split at hw
    · exact hfits.taken r hr w hw
    · exact nomatch hw
  · rw [Dict.get?_without] at hnone
    split at hnone
    · exact hfits.complete r hr hnone
    · next heq => exact hdefaults r hr (not_not.1 heq)

/-- If some static arguments fit and all that can be bound can be bound again, the signature is
coherent. -/
theorem coherent_of_bindAttrs_again (hfits : s.Fits attrs)
    (hagain : ∀ attrs bound, s.bindAttrs op attrs = .ok bound → s.bindAttrs op bound = .ok bound) :
    s.Coherent := by
  -- what is bound to a name is taken by all parameters of the name, since it is bound again
  have htakes : ∀ attrs, s.Fits attrs → ∀ p ∈ s.attrs, ∀ q, s.param? p.name = some q →
      ∀ v, q.value? attrs = some v → p.kind.Takes v := by
    intro attrs hfits p hp q hq v hv
    obtain ⟨bound, hbound⟩ : ∃ bound, s.bindAttrs op attrs = .ok bound :=
      exists_bindAttrs_iff.2 hfits
    have hrefits := exists_bindAttrs_iff.1 ⟨bound, hagain attrs bound hbound⟩
    exact hrefits.taken p hp v ((get?_of_param? hbound hq).trans hv)
  refine ⟨fun p hp q hq v hv => ?_, fun p hp q hq d hd hdefaults => ?_⟩
  · refine htakes _ (hfits.insert hp hv) p hp q hq _ ?_
    unfold AttrParam.value?
    rw [(mem_of_param? hq).2, Dict.get?_insert, if_pos rfl]
  · refine htakes _ (hfits.without hdefaults) p hp q hq d ?_
    unfold AttrParam.value?
    rw [(mem_of_param? hq).2, Dict.get?_without, if_neg (not_not.2 rfl)]
    exact hd

/-- Bound static arguments can always be bound again if and only if the signature is coherent, or
no static arguments fit at all. -/
theorem bindAttrs_again_iff (hs : s.Built) (op : String) :
    (∀ attrs bound, s.bindAttrs op attrs = .ok bound → s.bindAttrs op bound = .ok bound) ↔
      ((∃ attrs, s.Fits attrs) → s.Coherent) := by
  constructor
  · rintro hagain ⟨attrs, hfits⟩
    exact coherent_of_bindAttrs_again hfits hagain
  · intro hcoherent attrs bound h
    exact (hcoherent ⟨attrs, exists_bindAttrs_iff.1 ⟨bound, h⟩⟩).bindAttrs_again hs h

/-- Some static arguments fit where names are distinct: all of them can be supplied. -/
theorem exists_fits (hdistinct : (s.attrs.map (·.name)).Nodup) : ∃ attrs, s.Fits attrs := by
  let entries := s.attrs.map fun p => (p.name, p.kind.anyValue)
  have hget : ∀ p ∈ s.attrs, (Dict.ofList entries).get? p.name = some p.kind.anyValue := by
    intro p hp
    rw [Dict.get?_ofList]
    refine Dict.lookupEntry_of_mem ?_ (List.mem_reverse.2 (List.mem_map.2 ⟨p, hp, rfl⟩))
    rw [List.map_reverse, List.nodup_reverse, List.map_map]
    exact hdistinct
  refine ⟨.ofList entries, fun name v hv => ?_, fun p hp v hv => ?_, fun p hp hnone => ?_⟩
  · rw [Dict.get?_ofList] at hv
    obtain ⟨p, hp, heq⟩ := List.mem_map.1 (List.mem_reverse.1 (Dict.mem_of_lookupEntry hv))
    exact declares_iff.2 ⟨p, hp, congrArg Prod.fst heq⟩
  · rw [hget p hp] at hv
    exact Option.some.inj hv ▸ p.kind.takes_anyValue
  · rw [hget p hp] at hnone
    exact nomatch hnone

/-- Where names are distinct, a signature is coherent if and only if every default is accepted. -/
theorem coherent_iff (hdistinct : (s.attrs.map (·.name)).Nodup) :
    s.Coherent ↔ ∀ p ∈ s.attrs, ∀ d, p.default = some d → p.kind.Takes d := by
  constructor
  · intro h p hp d hd
    refine h.defaults p hp p (param?_eq hdistinct hp) d hd fun r hr hname => ?_
    rw [List.inj_on_of_nodup_map hdistinct hr hp hname, hd]
    rfl
  · intro h
    refine ⟨fun p hp q hq v hv => ?_, fun p hp q hq d hd _ => ?_⟩
    · obtain rfl := Option.some.inj ((param?_eq hdistinct hp).symm.trans hq)
      have haccepts := AttrKind.accepts_iff_takes.2 (hv p hp rfl)
      exact AttrKind.accepts_iff_takes.1 (AttrValue.accepts_widen haccepts)
    · obtain rfl := Option.some.inj ((param?_eq hdistinct hp).symm.trans hq)
      exact h p hp d hd

end Signature

end TraceSubstitution
