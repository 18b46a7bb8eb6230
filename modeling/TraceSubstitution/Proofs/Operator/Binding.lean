import Mathlib.Data.List.Nodup
import TraceSubstitution.Operator.Signature
import TraceSubstitution.Proofs.Action

/-!
# Binding static arguments twice

Traces hold bound static arguments, and every later call binds them again.
`Signature.bindAttrs_rebind` says that nothing changes when this succeeds, for
every signature that the builders make, and `Signature.Built.bindAttrs_again` that
it succeeds unless some parameter does not accept what has been bound to its name.
`Signature.bindAttrs_self` says that it does succeed if the names are distinct and
every default is of the declared kind. What is bound to a name is decided by the
last parameter of that name: `Signature.get?_bindAttrs`.
-/

namespace TraceSubstitution

namespace Dict

variable {β : Type}

theorem lookupEntry_eq_some_iff {entries : List (String × β)}
    (h : entries.Pairwise (·.1 < ·.1)) {name : String} {v : β} :
    lookupEntry name entries = some v ↔ (name, v) ∈ entries := by
  induction entries with
  | nil => simp
  | cons e entries ih =>
    obtain ⟨hlt, hrest⟩ := List.pairwise_cons.1 h
    rw [lookupEntry_cons, List.mem_cons]
    by_cases heq : name = e.1
    · subst heq
      have hnone : (e.1, v) ∉ entries := fun hmem =>
        String.lt_irrefl e.1 (hlt (e.1, v) hmem)
      simp [hnone, Prod.ext_iff, eq_comm]
    · simp [heq, ih hrest, Prod.ext_iff]

theorem get?_eq_some_iff {d : Dict β} {name : String} {v : β} :
    d.get? name = some v ↔ (name, v) ∈ d.toList := lookupEntry_eq_some_iff d.sorted

end Dict

namespace Signature

/-- The signatures that the builders make. -/
inductive Built : Signature → Prop where
  | empty : Built .empty
  | tensor {s : Signature} (name : String) : Built s → Built (s.tensor name)
  | optionalTensor {s : Signature} (name : String) : Built s → Built (s.optionalTensor name)
  | attr {s : Signature} (name : String) (kind : AttrKind) (default : AttrValue) :
    Built s → Built (s.attr name kind default)
  | requiredAttr {s : Signature} (name : String) (kind : AttrKind) :
    Built s → Built (s.requiredAttr name kind)

/-- The builders widen the defaults. -/
theorem Built.widen_default {s : Signature} (h : s.Built) :
    ∀ p ∈ s.attrs, ∀ v, p.default = some v → v.widen p.kind = v := by
  induction h with
  | empty => exact nofun
  | tensor _ _ ih => exact ih
  | optionalTensor _ _ ih => exact ih
  | attr name kind default _ ih =>
    intro p hp v hv
    rcases List.mem_append.1 hp with hp | hp
    · exact ih p hp v hv
    · obtain rfl := List.mem_singleton.1 hp
      obtain rfl := Option.some.inj hv
      exact AttrValue.widen_widen kind default
  | requiredAttr name kind _ ih =>
    intro p hp v hv
    rcases List.mem_append.1 hp with hp | hp
    · exact ih p hp v hv
    · obtain rfl := List.mem_singleton.1 hp
      exact nomatch hv

/-- The parameter that decides what is bound to a name: the last one of that name. -/
def param? (s : Signature) (name : String) : Option AttrParam :=
  s.attrs.reverse.find? (·.name = name)

theorem mem_of_param? {s : Signature} {name : String} {p : AttrParam}
    (h : s.param? name = some p) : p ∈ s.attrs ∧ p.name = name :=
  ⟨List.mem_reverse.1 (List.mem_of_find?_eq_some h), by simpa using List.find?_some h⟩

/-- Binds the parameters of a list, one after the other. -/
theorem get?_of_foldlM {op : String} {attrs : Attrs} {ps : List AttrParam} {b b' : Attrs}
    (h : ps.foldlM (fun bound p => return bound.insert p.name (← bindAttr op attrs p)) b = .ok b')
    (name : String) :
    match ps.reverse.find? (·.name = name) with
    | some p => ∃ v, bindAttr op attrs p = .ok v ∧ b'.get? name = some v
    | none => b'.get? name = b.get? name := by
  induction ps generalizing b with
  | nil =>
    obtain rfl : b = b' := by simpa using h
    rfl
  | cons p ps ih =>
    rw [List.foldlM_cons, bind_eq_ok_iff] at h
    obtain ⟨b₁, hb₁, h⟩ := h
    obtain ⟨v, hv, hb₁⟩ := bind_eq_ok_iff.1 hb₁
    obtain rfl : b.insert p.name v = b₁ := by simpa using hb₁
    have ih := ih h
    rw [List.reverse_cons, List.find?_append]
    cases hfind : ps.reverse.find? (·.name = name) with
    | some q => simpa [hfind] using ih
    | none =>
      have hget : b'.get? name = (b.insert p.name v).get? name := by simpa [hfind] using ih
      rw [Dict.get?_insert] at hget
      by_cases hname : p.name = name
      · have hget : b'.get? name = some v := by simpa [hname] using hget
        simpa [hname, hget] using hv
      · simpa [hname, Ne.symm hname] using hget

variable {s : Signature} {op : String} {attrs bound rebound : Attrs}

theorem bindAttrs_eq_ok_iff : s.bindAttrs op attrs = .ok bound ↔
    (∀ e ∈ attrs.toList, s.declares e.1 = true) ∧
      s.attrs.foldlM (fun bound p => return bound.insert p.name (← bindAttr op attrs p))
        Dict.empty = .ok bound := by
  unfold bindAttrs
  split
  · next name value h =>
    refine ⟨nofun, fun hb => ?_⟩
    have he := hb.1 _ (List.mem_of_find?_eq_some h)
    have hnot := List.find?_some h
    simp [he] at hnot
  · next h =>
    have hall : ∀ e ∈ attrs.toList, s.declares e.1 = true := fun e he => by
      simpa using List.find?_eq_none.1 h e he
    exact ⟨fun hb => ⟨hall, hb⟩, fun hb => hb.2⟩

/-- What is bound to a name. -/
theorem get?_bindAttrs (h : s.bindAttrs op attrs = .ok bound) (name : String) :
    match s.param? name with
    | some p => ∃ v, bindAttr op attrs p = .ok v ∧ bound.get? name = some v
    | none => bound.get? name = none :=
  get?_of_foldlM (bindAttrs_eq_ok_iff.1 h).2 name

/-- A bound value stays as it is when it is bound once more. -/
theorem widen_bindAttr (hs : s.Built) {p : AttrParam} (hp : p ∈ s.attrs) {v : AttrValue}
    (h : bindAttr op attrs p = .ok v) : v.widen p.kind = v := by
  unfold bindAttr at h
  split at h
  · split at h
    · obtain rfl := Except.ok.inj h
      exact AttrValue.widen_widen _ _
    · exact nomatch h
  · exact hs.widen_default p hp v (orError_eq_ok_iff.1 h)

/-- Bound static arguments do not change when they are bound once more. -/
theorem bindAttrs_rebind (hs : s.Built) (h : s.bindAttrs op attrs = .ok bound)
    (h' : s.bindAttrs op bound = .ok rebound) : rebound = bound := by
  ext name
  have hbound := get?_bindAttrs h name
  have hrebound := get?_bindAttrs h' name
  cases hp : s.param? name with
  | none =>
    rw [hp] at hbound hrebound
    rw [hrebound, hbound]
  | some p =>
    rw [hp] at hbound hrebound
    obtain ⟨v, hv, hbound⟩ := hbound
    obtain ⟨w, hw, hrebound⟩ := hrebound
    obtain ⟨hmem, hname⟩ := mem_of_param? hp
    unfold bindAttr at hw
    rw [hname, hbound] at hw
    simp only at hw
    split at hw
    · rw [widen_bindAttr hs hmem hv] at hw
      rw [hrebound, hbound, Except.ok.inj hw]
    · exact nomatch hw

theorem declares_iff {name : String} : s.declares name = true ↔ ∃ p ∈ s.attrs, p.name = name := by
  simp [declares]

/-- Bound static arguments have exactly the declared names. -/
theorem isSome_get?_of_bindAttrs (h : s.bindAttrs op attrs = .ok bound) (name : String) :
    (bound.get? name).isSome = s.declares name := by
  have hget := get?_bindAttrs h name
  rw [Bool.eq_iff_iff, declares_iff]
  cases hp : s.param? name with
  | none =>
    rw [hp] at hget
    rw [hget]
    refine ⟨nofun, fun ⟨p, hp', hname⟩ => ?_⟩
    simpa [hname] using List.find?_eq_none.1 hp p (List.mem_reverse.2 hp')
  | some p =>
    rw [hp] at hget
    obtain ⟨v, -, hget⟩ := hget
    rw [hget]
    exact iff_of_true rfl ⟨p, mem_of_param? hp⟩

/-- A list of parameters is refused for one of them. -/
theorem exists_of_foldlM_error {ps : List AttrParam} {b : Attrs} {e : Failure}
    (h : ps.foldlM (fun bound p => return bound.insert p.name (← bindAttr op attrs p)) b =
      .error e) : ∃ p ∈ ps, bindAttr op attrs p = .error e := by
  induction ps generalizing b with
  | nil => exact nomatch h
  | cons p ps ih =>
    rw [List.foldlM_cons] at h
    cases hp : bindAttr op attrs p with
    | error e' =>
      rw [hp] at h
      exact ⟨p, List.mem_cons_self, hp.trans (congrArg _ (Except.error.inj h))⟩
    | ok v =>
      rw [hp] at h
      obtain ⟨q, hq, he⟩ := ih h
      exact ⟨q, List.mem_cons_of_mem p hq, he⟩

/-- The error of binding a value to a parameter whose kind does not accept it. -/
def mismatch (op : String) (p : AttrParam) (v : AttrValue) : Failure :=
  .ofCause (.signature (.attrKindMismatch op p.name p.kind v.kind))

/-- Bound static arguments are bound again to themselves, unless some parameter does not accept what
has been bound to its name. -/
theorem Built.bindAttrs_again (hs : s.Built) (h : s.bindAttrs op attrs = .ok bound) :
    s.bindAttrs op bound = .ok bound ∨ ∃ p ∈ s.attrs, ∃ v, bound.get? p.name = some v ∧
      p.kind.accepts v = false ∧ s.bindAttrs op bound = .error (mismatch op p v) := by
  cases hagain : s.bindAttrs op bound with
  | ok rebound => exact .inl (congrArg _ (bindAttrs_rebind hs h hagain))
  | error e =>
    right
    unfold bindAttrs at hagain
    split at hagain
    · next name value hfind =>
      have hdeclared := isSome_get?_of_bindAttrs h name
      rw [Dict.get?_eq_some_iff.2 (List.mem_of_find?_eq_some hfind)] at hdeclared
      have hnot := List.find?_some hfind
      simp [← hdeclared] at hnot
    · obtain ⟨p, hp, he⟩ := exists_of_foldlM_error hagain
      obtain ⟨v, hv⟩ : ∃ v, bound.get? p.name = some v := by
        rw [← Option.isSome_iff_exists, isSome_get?_of_bindAttrs h]
        exact declares_iff.2 ⟨p, hp, rfl⟩
      unfold bindAttr at he
      rw [hv] at he
      simp only at he
      split at he
      · exact nomatch he
      · next hrefused =>
        exact ⟨p, hp, v, hv, Bool.eq_false_iff.2 hrefused, congrArg _ (Except.error.inj he).symm⟩

/-- Where names are distinct, every parameter decides what is bound to its name. -/
theorem param?_eq {s : Signature} (hdistinct : (s.attrs.map (·.name)).Nodup) {p : AttrParam}
    (hp : p ∈ s.attrs) : s.param? p.name = some p := by
  cases h : s.param? p.name with
  | none => simpa using List.find?_eq_none.1 h p (List.mem_reverse.2 hp)
  | some q =>
    obtain ⟨hq, hname⟩ := mem_of_param? h
    rw [List.inj_on_of_nodup_map hdistinct hq hp hname]

/-- Names of parameters are distinct, and defaults are of the declared kinds. -/
structure Proper (s : Signature) : Prop where
  /-- The builders made the signature. -/
  built : s.Built
  /-- No two parameters have one name. -/
  distinct : (s.attrs.map (·.name)).Nodup
  /-- A default could have been supplied. -/
  accepted : ∀ p ∈ s.attrs, ∀ v, p.default = some v → p.kind.accepts v = true

/-- The kind of a parameter accepts what has been bound to it. -/
theorem Proper.accepts_bindAttr (hs : s.Proper) {p : AttrParam} (hp : p ∈ s.attrs)
    {v : AttrValue} (h : bindAttr op attrs p = .ok v) : p.kind.accepts v = true := by
  unfold bindAttr at h
  split at h
  · split at h
    · next haccepts =>
      obtain rfl := Except.ok.inj h
      exact AttrValue.accepts_widen haccepts
    · exact nomatch h
  · exact hs.accepted p hp v (orError_eq_ok_iff.1 h)

/-- Every parameter has been bound to a value of its kind. -/
theorem Proper.get?_of_bindAttrs (hs : s.Proper) (h : s.bindAttrs op attrs = .ok bound)
    {p : AttrParam} (hp : p ∈ s.attrs) :
    ∃ v, bound.get? p.name = some v ∧ p.kind.accepts v = true := by
  have hbound := get?_bindAttrs h p.name
  rw [param?_eq hs.distinct hp] at hbound
  obtain ⟨v, hv, hget⟩ := hbound
  exact ⟨v, hget, hs.accepts_bindAttr hp hv⟩

/-- Bound static arguments can be bound once more, and they do not change. -/
theorem bindAttrs_self (hs : s.Proper) (h : s.bindAttrs op attrs = .ok bound) :
    s.bindAttrs op bound = .ok bound := by
  obtain hagain | ⟨p, hp, v, hget, hrefused, -⟩ := hs.built.bindAttrs_again h
  · exact hagain
  · obtain ⟨w, hw, haccepts⟩ := hs.get?_of_bindAttrs h hp
    obtain rfl := Option.some.inj (hget.symm.trans hw)
    rw [haccepts] at hrefused
    exact nomatch hrefused

theorem bindAttr_of_op {op op' : String} {attrs : Attrs} {p : AttrParam} {v : AttrValue}
    (h : bindAttr op attrs p = .ok v) : bindAttr op' attrs p = .ok v := by
  unfold bindAttr at h ⊢
  split at h
  · split at h
    · next haccepts =>
      rw [if_pos haccepts]
      exact h
    · cases h
  · exact orError_eq_ok_iff.2 (orError_eq_ok_iff.1 h)

theorem foldlM_bindAttr_of_op {op op' : String} {attrs : Attrs} {ps : List AttrParam}
    {b b' : Attrs}
    (h : ps.foldlM (fun bound p => return bound.insert p.name (← bindAttr op attrs p)) b = .ok b') :
    ps.foldlM (fun bound p => return bound.insert p.name (← bindAttr op' attrs p)) b = .ok b' := by
  induction ps generalizing b with
  | nil => exact h
  | cons p ps ih =>
    rw [List.foldlM_cons, bind_eq_ok_iff] at h ⊢
    obtain ⟨b₁, hb₁, hrest⟩ := h
    obtain ⟨v, hv, hb₁⟩ := bind_eq_ok_iff.1 hb₁
    exact ⟨b₁, bind_eq_ok_iff.2 ⟨v, bindAttr_of_op hv, hb₁⟩, ih hrest⟩

/-- Whether static arguments can be bound depends on the parameters only. -/
theorem bindAttrs_of_attrs {s s' : Signature} {op op' : String} {attrs bound : Attrs}
    (hattrs : s'.attrs = s.attrs) (h : s.bindAttrs op attrs = .ok bound) :
    s'.bindAttrs op' attrs = .ok bound := by
  obtain ⟨hdeclared, hfold⟩ := bindAttrs_eq_ok_iff.1 h
  refine bindAttrs_eq_ok_iff.2 ⟨fun e he => ?_, ?_⟩
  · unfold declares
    rw [hattrs]
    exact hdeclared e he
  · rw [hattrs]
    exact foldlM_bindAttr_of_op hfold

theorem length_of_checkOperands {τ : Type} {s : Signature} {op : String}
    {operands : List (Option τ)} (h : s.checkOperands op operands = .ok ()) :
    operands.length = s.tensors.length := by
  by_contra hne
  unfold checkOperands at h
  rw [if_pos hne] at h
  exact nomatch h

end Signature

end TraceSubstitution
