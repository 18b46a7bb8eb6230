import TraceSubstitution.Proofs.Operator.Binding

/-!
# Bound static arguments in canonical form

Whether static arguments can be bound is decided by `Signature.Fits`: they are declared,
each is of a sort that its kind takes, and those that are left out have defaults. What
is bound to a name is the supplied value with integers widened, or else the default
(`AttrParam.value?`), and the reader of the declared kind returns it (`Attrs.Reads`).

The result is in canonical form. It is bound again to itself, and it does not depend on
the order in which the arguments were set, on whether a number was written as an integer,
or on whether a default was spelled out (`Signature.Respelled`).
-/

namespace TraceSubstitution

namespace Dict

variable {β : Type}

theorem lookupEntry_append (name : String) (entries more : List (String × β)) :
    lookupEntry name (entries ++ more) =
      (lookupEntry name entries).or (lookupEntry name more) := by
  induction entries with
  | nil => rfl
  | cons e entries ih =>
    rw [List.cons_append, lookupEntry_cons, lookupEntry_cons]
    split
    · rfl
    · exact ih

/-- Only entries whose names have a certain property are looked at for such a name. -/
theorem lookupEntry_filter (keep : String → Bool) (name : String) (entries : List (String × β)) :
    lookupEntry name (entries.filter fun e => keep e.1) =
      if keep name then lookupEntry name entries else none := by
  induction entries with
  | nil => simp
  | cons e entries ih =>
    by_cases hkeep : keep e.1 = true
    · rw [List.filter_cons_of_pos (by simpa using hkeep), lookupEntry_cons, ih, lookupEntry_cons]
      by_cases hname : name = e.1
      · simp [hname, hkeep]
      · simp [hname]
    · rw [List.filter_cons_of_neg (by simpa using hkeep), ih, lookupEntry_cons]
      by_cases hname : name = e.1
      · simp [hname, hkeep]
      · simp [hname]

/-- The last entry under a name counts. -/
theorem get?_ofList (entries : List (String × β)) (name : String) :
    (ofList entries).get? name = lookupEntry name entries.reverse := by
  suffices h : ∀ d : Dict β, (entries.foldl (fun d e => d.insert e.1 e.2) d).get? name =
      (lookupEntry name entries.reverse).or (d.get? name) by
    have hempty := h empty
    rwa [get?_empty, Option.or_none] at hempty
  induction entries with
  | nil => simp
  | cons e entries ih =>
    intro d
    rw [List.foldl_cons, ih, get?_insert, List.reverse_cons, lookupEntry_append,
      lookupEntry_cons, lookupEntry_nil, Option.or_assoc]
    split <;> rfl

/-- The order in which values are set matters only for values under the same name. -/
theorem ofList_congr {entries entries' : List (String × β)}
    (h : ∀ name, entries.filter (·.1 = name) = entries'.filter (·.1 = name)) :
    ofList entries = ofList entries' := by
  ext name
  have hown : ∀ l : List (String × β),
      lookupEntry name l.reverse = lookupEntry name (l.filter (·.1 = name)).reverse := by
    intro l
    have hfilter := lookupEntry_filter (fun n => decide (n = name)) name l.reverse
    rwa [if_pos (by simp), List.filter_reverse, eq_comm] at hfilter
  rw [get?_ofList, get?_ofList, hown, h name, ← hown]

/-- Dictionaries that agree on certain names have the same entries under these names. -/
theorem filter_toList_congr (keep : String → Bool) {d d' : Dict β}
    (h : ∀ name, keep name = true → d.get? name = d'.get? name) :
    d.toList.filter (fun e => keep e.1) = d'.toList.filter (fun e => keep e.1) := by
  refine eq_of_lookupEntry_eq (d.sorted.filter _) (d'.sorted.filter _) fun name => ?_
  unfold toList
  rw [lookupEntry_filter, lookupEntry_filter]
  split
  · next hkeep => exact h name hkeep
  · rfl

end Dict

/-- The values that may be supplied for a kind: those of its own sort, integers for both kinds of
number, and nothing but an optional number may be unset. -/
inductive AttrKind.Takes : AttrKind → AttrValue → Prop where
  | bool (b : Bool) : Takes .bool (.bool b)
  | int (i : Int64) : Takes .int (.int i)
  | float (x : Float) : Takes .float (.float x)
  | floatOfInt (i : Int64) : Takes .float (.int i)
  | optionalFloat (x : Float) : Takes .optionalFloat (.float x)
  | optionalFloatOfInt (i : Int64) : Takes .optionalFloat (.int i)
  | unset : Takes .optionalFloat .unset

theorem AttrKind.accepts_iff_takes {k : AttrKind} {v : AttrValue} :
    k.accepts v = true ↔ k.Takes v := by
  constructor
  · intro h
    cases k <;> cases v <;> first | constructor | exact absurd h Bool.false_ne_true
  · intro h
    cases h <;> rfl

namespace AttrValue

variable {k : AttrKind} {v w : AttrValue}

/-- Whether a kind accepts a value can be seen from the widened value. -/
theorem accepts_of_widen_eq (h : v.widen k = w.widen k) : k.accepts v = k.accepts w := by
  cases k <;> cases v <;> cases w <;> first | rfl | exact nomatch h

/-- A value that its kind does not accept has one spelling only. -/
theorem eq_of_widen_eq (h : v.widen k = w.widen k) (hv : k.accepts v = false) : v = w := by
  cases k <;> cases v <;> cases w <;> 
    first | exact h | exact absurd hv.symm Bool.false_ne_true | exact nomatch h

end AttrValue

/-- The reader of a kind returns the value under a name. -/
def Attrs.Reads (attrs : Attrs) (name : String) : AttrKind → AttrValue → Prop
  | .bool, v => ∃ b, v = .bool b ∧ attrs.bool name = .ok b
  | .int, v => ∃ i, v = .int i ∧ attrs.int name = .ok i
  | .float, v => ∃ x, v = .float x ∧ attrs.float name = .ok x
  | .optionalFloat, v => (v = .unset ∧ attrs.optionalFloat name = .ok none) ∨
      ∃ x, v = .float x ∧ attrs.optionalFloat name = .ok (some x)

theorem Attrs.reads_of_get? {attrs : Attrs} {name : String} {k : AttrKind} {v : AttrValue}
    (hget : attrs.get? name = some v) (hv : k.accepts v = true) (hwiden : v.widen k = v) :
    attrs.Reads name k v := by
  obtain h := AttrKind.accepts_iff_takes.1 hv
  unfold Reads bool int float optionalFloat
  rw [hget]
  cases h with
  | bool b => exact ⟨b, rfl, rfl⟩
  | int i => exact ⟨i, rfl, rfl⟩
  | float x => exact ⟨x, rfl, rfl⟩
  | floatOfInt i => exact nomatch hwiden
  | optionalFloat x => exact .inr ⟨x, rfl, rfl⟩
  | optionalFloatOfInt i => exact nomatch hwiden
  | unset => exact .inl ⟨rfl, rfl⟩

/-- The value of a static argument in a call: what is supplied, with integers widened where a number
is declared, or else the default. -/
def AttrParam.value? (p : AttrParam) (attrs : Attrs) : Option AttrValue :=
  match attrs.get? p.name with
  | some v => some (v.widen p.kind)
  | none => p.default

/-- Two ways to give the same value to a parameter. -/
inductive AttrParam.Respelled (p : AttrParam) : Option AttrValue → Option AttrValue → Prop where
  /-- The spelling is the same. -/
  | same (v : Option AttrValue) : Respelled p v v
  /-- A number is written as an integer, or the other way round. -/
  | number {v w : AttrValue} : v.widen p.kind = w.widen p.kind → Respelled p (some v) (some w)
  /-- A default is spelled out. -/
  | spelledOut {v default : AttrValue} : p.default = some default →
    v.widen p.kind = default → Respelled p none (some v)
  /-- A default is left out. -/
  | leftOut {v default : AttrValue} : p.default = some default →
    v.widen p.kind = default → Respelled p (some v) none

namespace Signature

/-- The static arguments are declared, their values are of sorts that their kinds take, and those
that are left out have defaults. -/
structure Fits (s : Signature) (attrs : Attrs) : Prop where
  declared : ∀ name v, attrs.get? name = some v → s.declares name = true
  taken : ∀ p ∈ s.attrs, ∀ v, attrs.get? p.name = some v → p.kind.Takes v
  complete : ∀ p ∈ s.attrs, attrs.get? p.name = none → p.default.isSome = true

/-- Static arguments that give the same values to all parameters, and agree on all other names. -/
structure Respelled (s : Signature) (attrs attrs' : Attrs) : Prop where
  params : ∀ p ∈ s.attrs, p.Respelled (attrs.get? p.name) (attrs'.get? p.name)
  others : ∀ name, s.declares name = false → attrs.get? name = attrs'.get? name

variable {s : Signature} {op : String} {attrs attrs' bound : Attrs}

theorem value?_of_bindAttr {p : AttrParam} {v : AttrValue} (h : bindAttr op attrs p = .ok v) :
    p.value? attrs = some v := by
  unfold bindAttr at h
  unfold AttrParam.value?
  cases hget : attrs.get? p.name with
  | none =>
    rw [hget] at h
    exact orError_eq_ok_iff.1 h
  | some w =>
    rw [hget] at h
    simp only at h
    split at h
    · exact congrArg some (Except.ok.inj h)
    · exact nomatch h

theorem exists_bindAttr_iff {p : AttrParam} : (∃ v, bindAttr op attrs p = .ok v) ↔
    (∀ v, attrs.get? p.name = some v → p.kind.Takes v) ∧
      (attrs.get? p.name = none → p.default.isSome = true) := by
  unfold bindAttr
  cases attrs.get? p.name with
  | none => simp [orError_eq_ok_iff, Option.isSome_iff_exists]
  | some v =>
    simp only [Option.some.injEq, forall_eq', reduceCtorEq, false_implies, and_true]
    rw [← AttrKind.accepts_iff_takes]
    split
    · next haccepts => simp [haccepts]
    · next haccepts => simp [haccepts]

/-- A list of parameters can be bound if and only if each of them can. -/
theorem exists_foldlM_iff {ps : List AttrParam} (b : Attrs) :
    (∃ b', ps.foldlM (fun bound p => return bound.insert p.name (← bindAttr op attrs p)) b =
      .ok b') ↔ ∀ p ∈ ps, ∃ v, bindAttr op attrs p = .ok v := by
  induction ps generalizing b with
  | nil => simp
  | cons p ps ih =>
    rw [List.foldlM_cons, List.forall_mem_cons]
    cases hp : bindAttr op attrs p with
    | error e => simp
    | ok v => simpa using ih (b.insert p.name v)

/-- Static arguments can be bound if and only if they fit; the names need not be distinct. -/
theorem exists_bindAttrs_iff : (∃ bound, s.bindAttrs op attrs = .ok bound) ↔ s.Fits attrs := by
  simp only [bindAttrs_eq_ok_iff, exists_and_left, exists_foldlM_iff, exists_bindAttr_iff]
  constructor
  · rintro ⟨hdeclared, hparams⟩
    exact ⟨fun name v hget => hdeclared _ (Dict.get?_eq_some_iff.1 hget),
      fun p hp => (hparams p hp).1, fun p hp => (hparams p hp).2⟩
  · intro h
    exact ⟨fun e he => h.declared _ _ (Dict.get?_eq_some_iff.2 he),
      fun p hp => ⟨h.taken p hp, h.complete p hp⟩⟩

/-- Each parameter has the value of the call, and the reader of its kind returns it. -/
theorem Proper.reads_of_bindAttrs (hs : s.Proper) (h : s.bindAttrs op attrs = .ok bound)
    {p : AttrParam} (hp : p ∈ s.attrs) :
    ∃ v, p.value? attrs = some v ∧ bound.get? p.name = some v ∧ bound.Reads p.name p.kind v := by
  have hbound := get?_bindAttrs h p.name
  rw [param?_eq hs.distinct hp] at hbound
  obtain ⟨v, hv, hget⟩ := hbound
  exact ⟨v, value?_of_bindAttr hv, hget, Attrs.reads_of_get? hget (hs.accepts_bindAttr hp hv)
    (widen_bindAttr hs.built hp hv)⟩

theorem foldlM_bindAttr_congr {ps : List AttrParam}
    (h : ∀ p ∈ ps, bindAttr op attrs p = bindAttr op attrs' p) (b : Attrs) :
    ps.foldlM (fun bound p => return bound.insert p.name (← bindAttr op attrs p)) b =
      ps.foldlM (fun bound p => return bound.insert p.name (← bindAttr op attrs' p)) b := by
  induction ps generalizing b with
  | nil => rfl
  | cons p ps ih =>
    obtain ⟨hp, hps⟩ := List.forall_mem_cons.1 h
    rw [List.foldlM_cons, List.foldlM_cons, hp]
    exact bind_congr fun b' => ih hps b'

/-- Binding depends on the values that are not declared and on what is bound to each parameter. -/
theorem bindAttrs_congr
    (hothers : ∀ name, s.declares name = false → attrs.get? name = attrs'.get? name)
    (hparams : ∀ p ∈ s.attrs, bindAttr op attrs p = bindAttr op attrs' p) :
    s.bindAttrs op attrs = s.bindAttrs op attrs' := by
  have hundeclared : ∀ undeclared : String × AttrValue → Bool,
      (∀ e, undeclared e = !s.declares e.1) →
        attrs.toList.find? undeclared = attrs'.toList.find? undeclared := by
    intro undeclared hundeclared
    obtain rfl : undeclared = fun e => !s.declares e.1 := funext hundeclared
    rw [← List.head?_filter, ← List.head?_filter]
    exact congrArg List.head? (Dict.filter_toList_congr (fun name => !s.declares name)
      fun name hname => hothers name (by simpa using hname))
  unfold bindAttrs
  rw [hundeclared, foldlM_bindAttr_congr hparams]
  exact fun _ => rfl

/-- A parameter is bound to the same value, or refused with the same error, however its value is
spelled. -/
theorem bindAttr_of_respelled {p : AttrParam}
    (hdefault : ∀ v, p.default = some v → p.kind.accepts v = true ∧ v.widen p.kind = v)
    (h : p.Respelled (attrs.get? p.name) (attrs'.get? p.name)) :
    bindAttr op attrs p = bindAttr op attrs' p := by
  -- a default that is spelled out is accepted, and widened to the default
  have hspelled : ∀ {v default : AttrValue}, p.default = some default → v.widen p.kind = default →
      p.kind.accepts v = true := by
    intro v default hdefault' hv
    obtain ⟨haccepts, hwiden⟩ := hdefault default hdefault'
    rwa [AttrValue.accepts_of_widen_eq (hv.trans hwiden.symm)]
  unfold bindAttr
  generalize attrs.get? p.name = x, attrs'.get? p.name = y at h ⊢
  cases h with
  | same => rfl
  | @number v w hvw =>
    simp only [AttrValue.accepts_of_widen_eq hvw, hvw]
    split
    · rfl
    · next hw =>
      have hv : p.kind.accepts v = false := by
        rw [AttrValue.accepts_of_widen_eq hvw]
        exact Bool.eq_false_iff.2 hw
      rw [AttrValue.eq_of_widen_eq hvw hv]
  | spelledOut hdefault' hv => simp [hspelled hdefault' hv, hdefault', hv]
  | leftOut hdefault' hv => simp [hspelled hdefault' hv, hdefault', hv]

/-- The result does not depend on how the values are spelled. -/
theorem Proper.bindAttrs_of_respelled (hs : s.Proper) (h : s.Respelled attrs attrs') :
    s.bindAttrs op attrs = s.bindAttrs op attrs' :=
  bindAttrs_congr h.others fun p hp => bindAttr_of_respelled
    (fun v hv => ⟨hs.accepted p hp v hv, hs.built.widen_default p hp v hv⟩) (h.params p hp)

/-- Binding of static arguments: it succeeds on all arguments that fit and on no others; the result
has exactly the declared names, each with the value of the call, which the reader of its kind
returns, and is bound again to itself; neither the order of setting nor the spelling of the values
makes a difference. -/
theorem Proper.bindAttrs_canonical (hs : s.Proper) (op : String) :
    (∀ attrs, (∃ bound, s.bindAttrs op attrs = .ok bound) ↔ s.Fits attrs) ∧
    (∀ attrs bound, s.bindAttrs op attrs = .ok bound →
      (∀ name, (bound.get? name).isSome = s.declares name) ∧
      (∀ p ∈ s.attrs, ∃ v, p.value? attrs = some v ∧ bound.get? p.name = some v ∧
        bound.Reads p.name p.kind v) ∧
      s.bindAttrs op bound = .ok bound) ∧
    (∀ settings settings' : List (String × AttrValue),
      (∀ name, settings.filter (·.1 = name) = settings'.filter (·.1 = name)) →
        s.bindAttrs op (.ofList settings) = s.bindAttrs op (.ofList settings')) ∧
    ∀ attrs attrs', s.Respelled attrs attrs' → s.bindAttrs op attrs = s.bindAttrs op attrs' := by
  refine ⟨fun attrs => exists_bindAttrs_iff, fun attrs bound h => ?_,
    fun settings settings' h => ?_, fun attrs attrs' h => hs.bindAttrs_of_respelled h⟩
  · exact ⟨isSome_get?_of_bindAttrs h, fun p hp => hs.reads_of_bindAttrs h hp,
      bindAttrs_self hs h⟩
  · rw [Dict.ofList_congr h]

/-- A flag with a default, an optional number that is unset by default, and a required number. -/
def sample : Signature :=
  ((((empty.tensor "x").optionalTensor "mask").attr "causal" .bool (.bool false)).attr
    "scale" .optionalFloat .unset).requiredAttr "p" .float

theorem eq_of_mem_sample {p : AttrParam} (hp : p ∈ sample.attrs) :
    p = ⟨"causal", .bool, some (.bool false)⟩ ∨
      p = ⟨"scale", .optionalFloat, some .unset⟩ ∨ p = ⟨"p", .float, none⟩ := by
  simpa [sample, attr, requiredAttr, optionalTensor, tensor, empty, AttrValue.widen] using hp

theorem proper_sample : sample.Proper where
  built := .requiredAttr _ _ (.attr _ _ _ (.attr _ _ _ (.optionalTensor _ (.tensor _ .empty))))
  distinct := by decide
  accepted := by
    intro p hp v hv
    rcases eq_of_mem_sample hp with rfl | rfl | rfl
    · obtain rfl := Option.some.inj hv
      rfl
    · obtain rfl := Option.some.inj hv
      rfl
    · exact nomatch hv

/-- The required number is written as an integer; then it is written as a number, and the default of
the optional one is spelled out. -/
theorem bindAttrs_canonical_sample :
    let one : Attrs := .ofList [("p", .int 1)]
    let spelled : Attrs := .ofList [("scale", .unset), ("p", .float (Int64.toFloat 1))]
    sample.Fits one ∧ ∃ bound, sample.bindAttrs "op" one = .ok bound ∧
      bound.toList = [("causal", .bool false), ("p", .float (Int64.toFloat 1)), ("scale", .unset)] ∧
      sample.bindAttrs "op" bound = .ok bound ∧ sample.bindAttrs "op" spelled = .ok bound := by
  intro one spelled
  obtain ⟨hfits, hbound, -, hspelled⟩ := proper_sample.bindAttrs_canonical "op"
  obtain ⟨bound, hone, hlist⟩ : ∃ bound, sample.bindAttrs "op" one = .ok bound ∧ bound.toList =
      [("causal", .bool false), ("p", .float (Int64.toFloat 1)), ("scale", .unset)] := ⟨_, rfl, rfl⟩
  have hrespelled : sample.Respelled one spelled := by
    refine ⟨fun p hp => ?_, fun name hname => ?_⟩
    · rcases eq_of_mem_sample hp with rfl | rfl | rfl
      · exact .same none
      · exact .spelledOut rfl rfl
      · exact .number rfl
    · have hne : name ≠ "scale" ∧ name ≠ "p" := by
        constructor <;> rintro rfl <;> exact nomatch hname
      rw [Dict.get?_ofList, Dict.get?_ofList]
      simp [lookupEntry_cons, hne]
  obtain ⟨-, -, hagain⟩ := hbound one bound hone
  have hsame := hspelled one spelled hrespelled
  exact ⟨(hfits one).1 ⟨bound, hone⟩, bound, hone, hlist, hagain, hsame.symm.trans hone⟩

end Signature

end TraceSubstitution
