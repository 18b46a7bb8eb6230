import TraceSubstitution.Core
import TraceSubstitution.Proofs.Operator.Binding
import TraceSubstitution.Proofs.Operator.Execution

/-!
# Accepted calls of attention

What type inference of attention accepts is written down in `Attention.Accepts`,
and what binding makes of the static arguments in `Attention.Settled`. Everything
that is done with an accepted call later on follows from these two: its backward
operator accepts it, and the reference implementation finds its problem.
-/

namespace TraceSubstitution

namespace Require

variable {name lhsName rhsName : String} {type lhs rhs : TensorType} {n axis size : Nat}

theorem rank_eq_ok_iff : rank name type n = .ok () ↔ type.rank = n := by
  unfold rank
  rw [ensure_eq_ok_iff, decide_eq_true_iff]

theorem sameDType_eq_ok_iff :
    sameDType lhsName lhs rhsName rhs = .ok () ↔ lhs.dtype = rhs.dtype := by
  unfold sameDType
  rw [ensure_eq_ok_iff, decide_eq_true_iff]

theorem sameDevice_eq_ok_iff :
    sameDevice lhsName lhs rhsName rhs = .ok () ↔ lhs.device = rhs.device := by
  unfold sameDevice
  rw [ensure_eq_ok_iff, decide_eq_true_iff]

theorem dim_eq_ok_iff : dim type axis = .ok size ↔ type.dims[axis]? = some size :=
  orPanic_eq_ok_iff

theorem lastDim_eq_ok_iff : lastDim type = .ok size ↔ type.shape.lastDim? = some size :=
  orPanic_eq_ok_iff

theorem sameDim_eq_ok_iff : sameDim axis lhsName lhs rhsName rhs = .ok () ↔
    ∃ size, lhs.dims[axis]? = some size ∧ rhs.dims[axis]? = some size := by
  unfold sameDim
  simp only [bind_eq_ok_iff, dim_eq_ok_iff, ensure_eq_ok_iff, decide_eq_true_iff]
  constructor
  · rintro ⟨l, hl, r, hr, rfl⟩
    exact ⟨l, hl, hr⟩
  · rintro ⟨size, hl, hr⟩
    exact ⟨size, hl, size, hr, rfl⟩

theorem withLastDim_eq_ok_iff {type' : TensorType} : withLastDim type size = .ok type' ↔
    ∃ shape, type.shape.withLastDim? size = some shape ∧ type' = type.withShape shape := by
  unfold withLastDim
  simp only [map_eq_ok_iff, orPanic_eq_ok_iff, eq_comm (a := type')]

end Require

namespace Attrs

variable {attrs : Attrs} {name : String} {v : AttrValue}

/-- A value that is accepted as a number can be read as one. -/
theorem exists_float (hget : attrs.get? name = some v) (hv : AttrKind.float.accepts v = true) :
    ∃ x, attrs.float name = .ok x := by
  unfold float
  rw [hget]
  cases v with
  | float x => exact ⟨x, rfl⟩
  | int i => exact ⟨i.toFloat, rfl⟩
  | bool b => exact absurd hv Bool.false_ne_true
  | unset => exact absurd hv Bool.false_ne_true

theorem exists_optionalFloat (hget : attrs.get? name = some v)
    (hv : AttrKind.optionalFloat.accepts v = true) : ∃ x, attrs.optionalFloat name = .ok x := by
  unfold optionalFloat
  rw [hget]
  cases v with
  | float x => exact ⟨some x, rfl⟩
  | int i => exact ⟨some i.toFloat, rfl⟩
  | unset => exact ⟨none, rfl⟩
  | bool b => exact absurd hv Bool.false_ne_true

theorem exists_bool (hget : attrs.get? name = some v) (hv : AttrKind.bool.accepts v = true) :
    ∃ b, attrs.bool name = .ok b := by
  unfold bool
  rw [hget]
  cases v with
  | bool b => exact ⟨b, rfl⟩
  | int i => exact absurd hv Bool.false_ne_true
  | float x => exact absurd hv Bool.false_ne_true
  | unset => exact absurd hv Bool.false_ne_true

theorem exists_int (hget : attrs.get? name = some v) (hv : AttrKind.int.accepts v = true) :
    ∃ i, attrs.int name = .ok i := by
  unfold int
  rw [hget]
  cases v with
  | int i => exact ⟨i, rfl⟩
  | bool b => exact absurd hv Bool.false_ne_true
  | float x => exact absurd hv Bool.false_ne_true
  | unset => exact absurd hv Bool.false_ne_true

end Attrs

namespace Attention

/-- The types of the operands that attention accepts, and that of its output. -/
structure Accepts (query key value : TensorType) (mask : Option TensorType) (output : TensorType) :
    Prop where
  rank : 2 ≤ query.rank
  keyRank : key.rank = query.rank
  valueRank : value.rank = query.rank
  keyDType : query.dtype = key.dtype
  valueDType : query.dtype = value.dtype
  keyDevice : query.device = key.device
  valueDevice : query.device = value.device
  keyBatch : query.dims.take (query.rank - 2) = key.dims.take (query.rank - 2)
  valueBatch : query.dims.take (query.rank - 2) = value.dims.take (query.rank - 2)
  depth : ∃ size, query.dims[query.rank - 1]? = some size ∧ key.dims[query.rank - 1]? = some size
  length : ∃ size, key.dims[query.rank - 2]? = some size ∧ value.dims[query.rank - 2]? = some size
  mask : ∀ m, mask = some m → checkMask query key m = .ok ()
  output : ∃ width shape, value.shape.lastDim? = some width ∧
    query.shape.withLastDim? width = some shape ∧ output = query.withShape shape

/-- What the static arguments of attention are when they are bound. -/
structure Settled (attrs : Attrs) (dropout : Float) (causal : Bool) (scale : Option Float)
    (seed : Int64) : Prop where
  dropout : attrs.float "dropout_p" = .ok dropout
  causal : attrs.bool "is_causal" = .ok causal
  scale : attrs.optionalFloat "scale" = .ok scale
  seed : attrs.int "seed" = .ok seed

variable {args : Operands TensorType} {output : TensorType}

/-- What type inference accepts. -/
theorem accepts_of_outputType (h : outputType args = .ok output) : ∃ query key value,
    args.optional 0 = some query ∧ args.optional 1 = some key ∧ args.optional 2 = some value ∧
      Accepts query key value (args.optional 3) output := by
  unfold outputType at h
  obtain ⟨query, hquery, h⟩ := bind_eq_ok_iff.1 h
  obtain ⟨key, hkey, h⟩ := bind_eq_ok_iff.1 h
  obtain ⟨value, hvalue, h⟩ := bind_eq_ok_iff.1 h
  simp only [check_bind_eq_ok_iff, ensure_eq_ok_iff, Require.sameDType_eq_ok_iff,
    Require.sameDevice_eq_ok_iff, Require.sameDim_eq_ok_iff, Bool.and_eq_true,
    decide_eq_true_iff] at h
  obtain ⟨hrank, ⟨hkeyRank, hvalueRank⟩, -, hkeyDType, hvalueDType, hkeyDevice, hvalueDevice,
    ⟨hkeyBatch, hvalueBatch⟩, hdepth, hlength, h⟩ := h
  have hlast : (∀ m, args.optional 3 = some m → checkMask query key m = .ok ()) ∧ ∃ width,
      Require.lastDim value = .ok width ∧ Require.withLastDim query width = .ok output := by
    cases hmask : args.optional 3 with
    | none =>
      simp only [hmask] at h
      obtain ⟨dropout, -, h⟩ := bind_eq_ok_iff.1 h
      exact ⟨fun m hm => absurd hm (Option.some_ne_none m).symm,
        bind_eq_ok_iff.1 (check_bind_eq_ok_iff.1 h).2⟩
    | some mask =>
      simp only [hmask] at h
      obtain ⟨hcheck, h⟩ := check_bind_eq_ok_iff.1 h
      obtain ⟨dropout, -, h⟩ := bind_eq_ok_iff.1 h
      exact ⟨fun m hm => Option.some.inj hm ▸ hcheck,
        bind_eq_ok_iff.1 (check_bind_eq_ok_iff.1 h).2⟩
  obtain ⟨hmask, width, hwidth, houtput⟩ := hlast
  obtain ⟨shape, hshape, houtput⟩ := Require.withLastDim_eq_ok_iff.1 houtput
  exact ⟨query, key, value, Operands.tensor_eq_ok_iff.1 hquery, Operands.tensor_eq_ok_iff.1 hkey,
    Operands.tensor_eq_ok_iff.1 hvalue, hrank, hkeyRank, hvalueRank, hkeyDType, hvalueDType,
    hkeyDevice, hvalueDevice, hkeyBatch, hvalueBatch, hdepth, hlength, hmask, width, shape,
    Require.lastDim_eq_ok_iff.1 hwidth, hshape, houtput⟩

/-- Type inference depends on the operands and the static arguments. -/
theorem outputType_congr {args' : Operands TensorType} (h : outputType args = .ok output)
    (hoptional : ∀ i < 4, args'.optional i = args.optional i) (hattrs : args'.attrs = args.attrs) :
    outputType args' = .ok output := by
  obtain ⟨query, key, value, hquery, hkey, hvalue, -⟩ := accepts_of_outputType h
  have htensor : ∀ {i type}, i < 4 → args.optional i = some type →
      args'.tensor i = .ok type ∧ args.tensor i = .ok type := fun hi htype =>
    ⟨Operands.tensor_eq_ok_iff.2 ((hoptional _ hi).trans htype), Operands.tensor_eq_ok_iff.2 htype⟩
  obtain ⟨hquery', hquery⟩ := htensor (by decide) hquery
  obtain ⟨hkey', hkey⟩ := htensor (by decide) hkey
  obtain ⟨hvalue', hvalue⟩ := htensor (by decide) hvalue
  unfold outputType at h ⊢
  rw [hquery', hkey', hvalue', hoptional 3 (by decide), hattrs]
  rwa [hquery, hkey, hvalue] at h

/-- The backward operator accepts what attention accepts, and a gradient of the type of the
output. -/
theorem gradientTypes_eq_ok {op op' : String} {operands : List (Option TensorType)} {attrs : Attrs}
    {query key value : TensorType} (h : outputType ⟨op, operands, attrs⟩ = .ok output)
    (hquery : operands[0]?.join = some query) (hkey : operands[1]?.join = some key)
    (hvalue : operands[2]?.join = some value) :
    gradientTypes ⟨op', some output :: operands, attrs⟩ = .ok [query, key, value] := by
  have htensor : ∀ {i type}, operands[i]?.join = some type →
      (⟨op', some output :: operands, attrs⟩ : Operands TensorType).tensor (i + 1) = .ok type :=
    fun htype => Operands.tensor_eq_ok_iff.2 htype
  have hgradient : (⟨op', some output :: operands, attrs⟩ : Operands TensorType).tensor 0 =
    .ok output := rfl
  have houtput : outputType ⟨op', [some query, some key, some value, operands[3]?.join], attrs⟩ =
      .ok output := by
    refine outputType_congr h (fun i hi => ?_) rfl
    match i, hi with
    | 0, _ => exact hquery.symm
    | 1, _ => exact hkey.symm
    | 2, _ => exact hvalue.symm
    | 3, _ => rfl
  have hoptional : (⟨op', some output :: operands, attrs⟩ : Operands TensorType).optional 4 =
    operands[3]?.join := rfl
  unfold gradientTypes
  rw [hgradient, htensor hquery, htensor hkey, htensor hvalue, hoptional]
  simp only [ok_bind, houtput, decide_true, ensure_true, pure_eq_ok]

/-- A parameter that attention declares could be supplied with its default. -/
theorem proper_withAttrs {s : Signature} (hs : s.Built) (hattrs : s.attrs = []) :
    (withAttrs s).Proper := by
  have heq : (withAttrs s).attrs = (withAttrs .empty).attrs := by
    simp [withAttrs, Signature.attr, hattrs, Signature.empty]
  refine ⟨.attr _ _ _ (.attr _ _ _ (.attr _ _ _ (.attr _ _ _ hs))), ?_, ?_⟩
  · rw [heq]
    decide
  · rw [heq]
    intro p hp v hv
    have hp : p = ⟨"dropout_p", .float, some (.float 0)⟩ ∨
        p = ⟨"is_causal", .bool, some (.bool false)⟩ ∨
        p = ⟨"scale", .optionalFloat, some .unset⟩ ∨ p = ⟨"seed", .int, some (.int 0)⟩ := by
      simpa [withAttrs, Signature.attr, Signature.empty, AttrValue.widen] using hp
    rcases hp with rfl | rfl | rfl | rfl <;> obtain rfl := Option.some.inj hv <;> rfl

theorem proper_signature : signature.Proper :=
  proper_withAttrs (.optionalTensor _ (.tensor _ (.tensor _ (.tensor _ .empty)))) rfl

theorem proper_backwardSignature : backwardSignature.Proper :=
  proper_withAttrs (.optionalTensor _ (.tensor _ (.tensor _ (.tensor _ (.tensor _ .empty))))) rfl

/-- Bound static arguments can be read. -/
theorem settled_of_bindAttrs {op : String} {attrs bound : Attrs}
    (h : signature.bindAttrs op attrs = .ok bound) :
    ∃ dropout causal scale seed, Settled bound dropout causal scale seed := by
  have hmem : (⟨"dropout_p", .float, some (.float 0)⟩ : AttrParam) ∈ signature.attrs ∧
      (⟨"is_causal", .bool, some (.bool false)⟩ : AttrParam) ∈ signature.attrs ∧
      (⟨"scale", .optionalFloat, some .unset⟩ : AttrParam) ∈ signature.attrs ∧
      (⟨"seed", .int, some (.int 0)⟩ : AttrParam) ∈ signature.attrs := by
    simp [signature, withAttrs, Signature.attr, AttrValue.widen]
  obtain ⟨hdropout, hcausal, hscale, hseed⟩ := hmem
  obtain ⟨_, hdropout, hdropoutKind⟩ := proper_signature.get?_of_bindAttrs h hdropout
  obtain ⟨_, hcausal, hcausalKind⟩ := proper_signature.get?_of_bindAttrs h hcausal
  obtain ⟨_, hscale, hscaleKind⟩ := proper_signature.get?_of_bindAttrs h hscale
  obtain ⟨_, hseed, hseedKind⟩ := proper_signature.get?_of_bindAttrs h hseed
  obtain ⟨dropout, hdropout⟩ := Attrs.exists_float hdropout hdropoutKind
  obtain ⟨causal, hcausal⟩ := Attrs.exists_bool hcausal hcausalKind
  obtain ⟨scale, hscale⟩ := Attrs.exists_optionalFloat hscale hscaleKind
  obtain ⟨seed, hseed⟩ := Attrs.exists_int hseed hseedKind
  exact ⟨dropout, causal, scale, seed, hdropout, hcausal, hscale, hseed⟩

/-- The scale of a call with bound static arguments. -/
theorem Settled.softmaxScale {attrs : Attrs} {dropout : Float} {causal : Bool}
    {scale : Option Float} {seed : Int64} (h : Settled attrs dropout causal scale seed)
    (depth : Nat) :
    Attention.softmaxScale attrs depth = .ok (scale.getD (1.0 / (Float.ofNat depth).sqrt)) := by
  unfold Attention.softmaxScale
  rw [h.scale]
  rfl

theorem getElem?_dims_of_lt {type : TensorType} {axis : Nat} (h : axis < type.rank) :
    ∃ size, type.dims[axis]? = some size := ⟨_, List.getElem?_eq_getElem h⟩

theorem lastDim?_of_pos {type : TensorType} (h : 0 < type.rank) :
    ∃ size, type.shape.lastDim? = some size := by
  cases hlast : type.shape.lastDim? with
  | some size => exact ⟨size, rfl⟩
  | none => exact absurd (Shape.lastDim?_eq_none_iff.1 hlast) (Nat.ne_of_gt h)

/-- The reference implementation finds the problem of an accepted call: it has the causal flag of
the static arguments, and their scale in the precision of the elements. -/
theorem ofOperands_eq_ok {α : Type} [Scalar α] {args : Operands (Tensor α)} {q k v : Tensor α}
    (hq : args.optional 0 = some q) (hk : args.optional 1 = some k) (hv : args.optional 2 = some v)
    {mask : Option TensorType} (h : Accepts q.type k.type v.type mask output) {dropout : Float}
    {causal : Bool} {scale : Option Float} {seed : Int64}
    (hattrs : Settled args.attrs dropout causal scale seed) {depth : Nat}
    (hdepth : q.type.shape.lastDim? = some depth) :
    ∃ p : Problem α, Problem.ofOperands args = .ok p ∧ p.causal = causal ∧
      p.scale = Scalar.ofFloat (scale.getD (1.0 / (Float.ofNat depth).sqrt)) := by
  have hrank : q.type.rank - 2 < q.type.rank := Nat.sub_lt (by have := h.rank; omega) (by decide)
  obtain ⟨queries, hqueries⟩ := getElem?_dims_of_lt hrank
  obtain ⟨keys, hkeys⟩ := getElem?_dims_of_lt (Nat.lt_of_lt_of_eq hrank h.keyRank.symm)
  obtain ⟨width, -, hwidth, -⟩ := h.output
  have hnot : ¬ q.type.rank < 2 := Nat.not_lt.2 h.rank
  unfold Problem.ofOperands
  rw [Operands.tensor_eq_ok_iff.2 hq, Operands.tensor_eq_ok_iff.2 hk,
    Operands.tensor_eq_ok_iff.2 hv]
  simp only [ok_bind, Require.lastDim_eq_ok_iff.2 hdepth, Require.lastDim_eq_ok_iff.2 hwidth,
    Require.dim_eq_ok_iff.2 hqueries, Require.dim_eq_ok_iff.2 hkeys, if_neg hnot,
    hattrs.softmaxScale, hattrs.causal, hattrs.dropout, hattrs.seed]
  exact ⟨_, rfl, rfl, rfl⟩

end Attention

end TraceSubstitution
