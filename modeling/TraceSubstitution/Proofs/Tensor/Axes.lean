import Mathlib.Data.Set.Defs
import TraceSubstitution.Proofs.Json.Values
import TraceSubstitution.Proofs.Tensor.Kept
import TraceSubstitution.Proofs.Tensor.Views
import TraceSubstitution.Tensor.Sampling
import TraceSubstitution.Tensor.Written

/-!
# Shapes and their axes

Programs build shapes with an axis, and everything that makes a shape from others keeps
one: another last axis, the tensors of a type, ranges and copies of them, and type
inference and computation of the built-in operators. A shape that is read from a text
has as many axes as the text says, which may be none. So all shapes that can be made from
some texts have an axis exactly if none of these texts stands for a shape without axes
(`Shape.made_axes_iff`). A shape is read as it was written, whether it has an axis or
not.
-/

namespace TraceSubstitution

/-- Only the empty array is read as the empty list. -/
theorem Json.list?_eq_nil_iff {β : Type} {read : Json → Option β} {j : Json} :
    list? read j = some [] ↔ j = .array [] := by
  cases j with
  | array items => cases items <;> simp [list?, List.mapM_cons, Option.bind_eq_some_iff]
  | _ => simp [list?]

namespace Shape

variable {s s' : Shape} {size : Nat}

/-- The shape that a JSON text stands for. -/
def ofText? (text : String) : Option Shape := (Json.read? text).bind ofJson?

theorem plain_toJson (s : Shape) : s.toJson.Plain := by
  have hdims : (Json.array (s.dims.map .ofNat)).Plain := by
    refine .array fun j hj => ?_
    obtain ⟨d, -, rfl⟩ := List.mem_map.1 hj
    exact .ofNat d
  refine .object (fun e he => ?_) fun e he => ?_
  · rw [List.mem_singleton.1 he]
    rfl
  · rw [List.mem_singleton.1 he]
    exact hdims

theorem ofJson?_toJson (h : ∀ d ∈ s.dims, d < sizeBound) : ofJson? s.toJson = some s := by
  have hdims : (s.dims.map Json.ofNat).mapM (Json.natBelow? sizeBound) = some s.dims := by
    obtain ⟨dims⟩ := s
    induction dims with
    | nil => rfl
    | cons d dims ih =>
      obtain ⟨hd, hdims⟩ := List.forall_mem_cons.1 h
      simp [Json.natBelow?_ofNat hd, ih hdims]
  simp [ofJson?, toJson, Json.fields?, Json.member?, Json.required?, Json.list?, hdims]

/-- A shape is read as it was written. -/
theorem ofText?_write (h : ∀ d ∈ s.dims, d < sizeBound) : ofText? s.toJson.write = some s := by
  unfold ofText?
  rw [s.plain_toJson.read?_write]
  exact ofJson?_toJson h

/-- A value stands for the shape without axes if its field `dims` is an empty array. -/
theorem ofJson?_eq_nil_iff {j : Json} :
    ofJson? j = some ⟨[]⟩ ↔ j.fields? ["dims"] = some [some (.array [])] := by
  unfold ofJson?
  constructor
  · intro h
    obtain ⟨fields, hfields, h⟩ := Option.bind_eq_some_iff.1 h
    split at h
    · next dims =>
      obtain ⟨sizes, hsizes, h⟩ := Option.bind_eq_some_iff.1 h
      obtain rfl : sizes = [] := Shape.mk.inj (Option.some.inj h)
      obtain ⟨value, rfl, hvalue⟩ := Option.bind_eq_some_iff.1 hsizes
      rw [hfields, Json.list?_eq_nil_iff.1 hvalue]
    · exact nomatch h
  · intro h
    rw [h]
    rfl

theorem ofText?_eq_nil_iff {text : String} : ofText? text = some ⟨[]⟩ ↔
    ∃ j, Json.read? text = some j ∧ j.fields? ["dims"] = some [some (.array [])] := by
  unfold ofText?
  simp only [Option.bind_eq_some_iff, ofJson?_eq_nil_iff]

theorem rank_pos_of_ofDims? {dims : List Nat} (h : ofDims? dims = some s) : 0 < s.rank := by
  obtain ⟨hne, rfl⟩ := ofDims?_eq_some_iff.1 h
  exact List.length_pos_of_ne_nil hne

/-- Another last axis takes the place of one that was there. -/
theorem withLastDim?_eq_some_iff : s.withLastDim? size = some s' ↔
    0 < s.rank ∧ s' = ⟨s.dims.dropLast ++ [size]⟩ := by
  unfold withLastDim? rank
  split
  · next h => simp [h]
  · next h => simp [List.length_pos_iff, h, eq_comm]

end Shape

/-- Only a type with an axis has another last axis. -/
theorem Require.rank_of_withLastDim {type type' : TensorType} {size : Nat}
    (h : withLastDim type size = .ok type') : 0 < type'.rank := by
  obtain ⟨shape, hshape, rfl⟩ := withLastDim_eq_ok_iff.1 h
  obtain ⟨-, rfl⟩ := Shape.withLastDim?_eq_some_iff.1 hshape
  simp [TensorType.rank, Shape.rank]

namespace Tensor

variable {α : Type} {t u : Tensor α}

/-- A range of an axis has as many axes as the tensor. -/
theorem rank_of_narrow {axis start len : Nat} (h : t.narrow axis start len = .ok u) :
    u.type.rank = t.type.rank := by
  rcases t.narrow_cases axis start len with ⟨-, -, v, hv, htype⟩ | ⟨-, e, he⟩
  · obtain rfl : v = u := Except.ok.inj (hv.symm.trans h)
    rw [htype]
    exact List.length_set
  · exact nomatch he.symm.trans h

/-- Whatever makes a tensor for a type with an axis makes one with an axis. -/
theorem kept_axes [Scalar α] :
    Kept (fun type => 0 < type.rank) (fun t : Tensor α => 0 < t.type.rank) where
  withLastDim h := Require.rank_of_withLastDim h
  leading _ h := Shape.rank_pos_of_ofDims? h
  ofElements h ht := by rwa [(of_ofElements_eq_ok ht).1]
  narrow h hu := by rwa [rank_of_narrow hu]
  contiguous h := by rwa [type_contiguous]

end Tensor

namespace Builtin

variable {α : Type} [Scalar α] {config : FlashConfig} {blockSize : Nat} {probe : Bool}
  {b : Builtin α}

/-- Operands with axes have outputs with axes. -/
theorem ensures_outputTypes (hb : b ∈ builtins config blockSize probe) {args : Operands TensorType}
    (h : ∀ type, some type ∈ args.tensors → 0 < type.rank) :
    Ensures (b.operator.outputTypes args) fun types => ∀ type ∈ types, 0 < type.rank := by
  have hoperand : ∀ {i type}, args.optional i = some type → 0 < type.rank := fun htype =>
    h _ (Operands.mem_of_optional htype)
  simp only [builtins, List.mem_cons, List.not_mem_nil, or_false] at hb
  rcases hb with rfl | rfl | rfl | rfl | rfl | rfl
  · refine ends_bind.2 (ensures_of_forall fun type htype => List.forall_mem_singleton.2 ?_)
    exact hoperand (Core.sumType_eq_ok_iff.1 htype).1
  · exact (Operands.ensures_tensor h 0).bind fun type _ htype => List.forall_mem_singleton.2 htype
  · refine ends_bind.2 (ensures_of_forall fun type htype => List.forall_mem_singleton.2 ?_)
    obtain ⟨_, _, _, -, -, -, haccepts⟩ := Attention.accepts_of_outputType htype
    obtain ⟨width, shape, -, hshape, houtput⟩ := haccepts.output
    exact Require.rank_of_withLastDim (Require.withLastDim_eq_ok_iff.2 ⟨shape, hshape, houtput⟩)
  · refine ensures_of_forall fun types htypes => ?_
    obtain ⟨_, query, key, value, -, hquery, hkey, hvalue, -, rfl⟩ :=
      Attention.exists_of_gradientTypes htypes
    exact forall_mem_three (hoperand hquery) (hoperand hkey) (hoperand hvalue)
  · refine ends_bind.2 (ensures_of_forall fun types htypes => ?_)
    obtain ⟨_, _, _, -, -, -, _, _, _, -, houtput, hlse⟩ := Flash.exists_of_forwardTypes htypes
    refine List.forall_mem_cons.2 ⟨?_, List.forall_mem_singleton.2 ?_⟩
    · rw [houtput]
      simp [TensorType.rank, Shape.rank]
    · rw [hlse]
      simp [TensorType.rank, Shape.rank]
  · refine ensures_of_forall fun types htypes => ?_
    obtain ⟨_, q, k, v, _, -, hq, hk, hv, -, -, rfl, -⟩ := Flash.exists_of_backwardTypes htypes
    exact forall_mem_three (hoperand hq) (hoperand hk) (hoperand hv)

theorem ensures_infer (hb : b ∈ builtins config blockSize probe)
    {types : List (Option TensorType)} (h : ∀ type, some type ∈ types → 0 < type.rank)
    (attrs : Attrs) : Ensures (b.operator.infer types attrs) fun outputs =>
      ∀ type ∈ outputs, 0 < type.rank := by
  refine ensures_bind fun bound => ensures_of_forall fun outputs houtputs => ?_
  exact (ensures_outputTypes hb h).of_eq_ok (withContext_eq_ok_iff.1 houtputs)

end Builtin

namespace Shape

/-- The shapes that can be made while the given texts are read: from axes, as shapes that such
texts stand for, with another last axis, as shapes of tensors that are made for such shapes or from
such tensors, and as shapes of types that are inferred. -/
inductive Made (texts : Set String) : Shape → Prop where
  | ofDims {dims : List Nat} {s : Shape} : ofDims? dims = some s → Made texts s
  | ofText {text : String} {s : Shape} : text ∈ texts → ofText? text = some s → Made texts s
  | withLastDim {s s' : Shape} {size : Nat} : Made texts s → s.withLastDim? size = some s' →
    Made texts s'
  | ofElements {type : TensorType} {xs : Array Float32} {t : Tensor Float32} :
    Made texts type.shape → Tensor.ofElements type xs = .ok t → Made texts t.type.shape
  | full {type : TensorType} (x : Float32) : Made texts type.shape →
    Made texts (Tensor.full type x).type.shape
  | zeros {type : TensorType} : Made texts type.shape →
    Made texts (Tensor.zeros type : Tensor Float32).type.shape
  | normal {type : TensorType} (std : Float32) (seed : UInt64) : Made texts type.shape →
    Made texts (Tensor.normal type std seed).type.shape
  | narrow {t u : Tensor Float32} {axis start len : Nat} : Made texts t.type.shape →
    t.narrow axis start len = .ok u → Made texts u.type.shape
  | contiguous {t : Tensor Float32} : Made texts t.type.shape →
    Made texts t.contiguous.type.shape
  | add {t u sum : Tensor Float32} : Made texts t.type.shape → Made texts u.type.shape →
    t.add u = .ok sum → Made texts sum.type.shape
  | inferred {config : FlashConfig} {blockSize : Nat} {probe : Bool} {b : Builtin Float32}
    {types : List (Option TensorType)} {attrs : Attrs} {outputs : List TensorType}
    {type : TensorType} : b ∈ builtins config blockSize probe →
    (∀ type, some type ∈ types → Made texts type.shape) →
    b.operator.infer types attrs = .ok outputs → type ∈ outputs → Made texts type.shape
  | output {config : FlashConfig} {blockSize : Nat} {probe : Bool} {b : Builtin Float32}
    {operands : List (Option (Tensor Float32))} {attrs : Attrs} {ts : List (Tensor Float32)}
    {t : Tensor Float32} : b ∈ builtins config blockSize probe →
    (∀ u, some u ∈ operands → Made texts u.type.shape) →
    b.operator.execute operands attrs = .ok ts → t ∈ ts → Made texts t.type.shape
  | forward {config : FlashConfig} {blockSize : Nat} {probe : Bool} {q k v : Tensor Float32}
    {scale : Float32} {causal : Bool} {r : FlashForward Float32} {t : Tensor Float32} :
    (∀ u ∈ [q, k, v], Made texts u.type.shape) →
    (Flash.reference config blockSize probe).forward q k v scale causal = .ok r →
    t ∈ [r.primary, r.auxiliary] → Made texts t.type.shape
  | backward {config : FlashConfig} {blockSize : Nat} {probe : Bool}
    {x : FlashBackwardInput Float32} {scale : Float32} {causal : Bool} {g : FlashGradients Float32}
    {t : Tensor Float32} : (∀ u ∈ [x.dOut, x.q, x.k, x.v, x.out, x.lse], Made texts u.type.shape) →
    (Flash.reference config blockSize probe).backward x scale causal = .ok g →
    t ∈ [g.dq, g.dk, g.dv] → Made texts t.type.shape

variable {texts : Set String} {s : Shape}

/-- Only texts bring in a shape without axes. -/
theorem Made.rank_pos (h : s.Made texts) (htexts : ∀ text ∈ texts, ofText? text ≠ some ⟨[]⟩) :
    0 < s.rank := by
  induction h with
  | ofDims hs => exact rank_pos_of_ofDims? hs
  | @ofText text s htext hs =>
    refine List.length_pos_iff.2 fun hnil => htexts text htext ?_
    rw [hs]
    exact congrArg some (congrArg Shape.mk hnil)
  | withLastDim _ hs _ =>
    obtain ⟨-, rfl⟩ := withLastDim?_eq_some_iff.1 hs
    simp [rank]
  | ofElements _ ht ih => exact Tensor.kept_axes.ofElements ih ht
  | full _ _ ih => exact ih
  | zeros _ ih => exact ih
  | normal _ _ _ ih => exact ih
  | narrow _ hu ih => exact Tensor.kept_axes.narrow ih hu
  | contiguous _ ih => exact Tensor.kept_axes.contiguous ih
  | add _ _ hsum ih _ => exact (Tensor.kept_axes.ensures_add ih _).of_eq_ok hsum
  | inferred hb _ houtputs htype ih =>
    exact (Builtin.ensures_infer hb ih _).of_eq_ok houtputs _ htype
  | output hb _ hts ht ih =>
    exact (Builtin.ensures_execute Tensor.kept_axes hb ih _).of_eq_ok hts _ ht
  | forward _ hr ht =>
    exact (Flash.ensures_reference_forward _ _ _ Tensor.kept_axes _ _ _ _ _).of_eq_ok hr _ ht
  | backward _ hg ht =>
    exact (Flash.ensures_reference_backward _ _ _ Tensor.kept_axes _ _ _).of_eq_ok hg _ ht

/-- The last axis can be looked at and replaced, where there is one. -/
theorem exists_lastDim?_of_rank_pos (h : 0 < s.rank) : (∃ size, s.lastDim? = some size) ∧
    ∀ size, ∃ s', s.withLastDim? size = some s' ∧ s'.rank = s.rank := by
  refine ⟨?_, fun size => ⟨_, withLastDim?_eq_some_iff.2 ⟨h, rfl⟩, ?_⟩⟩
  · refine Option.ne_none_iff_exists'.1 fun hnone => ?_
    exact Nat.ne_of_gt h (lastDim?_eq_none_iff.1 hnone)
  · rw [rank, List.length_append, List.length_dropLast, List.length_singleton]
    exact Nat.sub_add_cancel h

/-- Every shape that can be made has an axis, which can be looked at and replaced, exactly if none
of the texts that are read has an empty array as its field `dims`. A shape without axes has no last
axis to look at or to replace. A shape of 64-bit sizes is read as it was written, also if it has no
axes. -/
theorem made_axes_iff (texts : Set String) :
    ((∀ s, Made texts s → 1 ≤ s.rank ∧ (∃ size, s.lastDim? = some size) ∧
        ∀ size, ∃ s', s.withLastDim? size = some s' ∧ s'.rank = s.rank) ↔
      ∀ text ∈ texts, ∀ j, Json.read? text = some j →
        j.fields? ["dims"] ≠ some [some (.array [])]) ∧
    (∀ s, Made texts s → s.rank = 0 →
      s.lastDim? = none ∧ ∀ size, s.withLastDim? size = none) ∧
    ∀ s, Made texts s → (∀ d ∈ s.dims, d < sizeBound) → ofText? s.toJson.write = some s := by
  refine ⟨⟨fun h text htext j hread hdims => ?_, fun h s hmade => ?_⟩, fun s _ hrank => ?_,
    fun s _ hsizes => ofText?_write hsizes⟩
  · have hnil := ofText?_eq_nil_iff.2 ⟨j, hread, hdims⟩
    exact absurd (h _ (.ofText htext hnil)).1 (by decide)
  · have hpos := hmade.rank_pos fun text htext hnil => by
      obtain ⟨j, hread, hdims⟩ := ofText?_eq_nil_iff.1 hnil
      exact h text htext j hread hdims
    exact ⟨hpos, exists_lastDim?_of_rank_pos hpos⟩
  · exact ⟨lastDim?_eq_none_iff.2 hrank, fun _ => withLastDim?_eq_none_iff.2 hrank⟩

/-- A matrix whose shape is read from a text, and what is made of it. -/
theorem made_axes_iff_matrix :
    (∃ s, ofText? "[[2,3]]" = some s ∧ Made {"[[2,3]]"} s ∧ s.rank = 2) ∧
    (∀ s, Made {"[[2,3]]"} s → 1 ≤ s.rank ∧ (∃ size, s.lastDim? = some size) ∧
      ∀ size, ∃ s', s.withLastDim? size = some s' ∧ s'.rank = s.rank) ∧
    (⟨[2, 3]⟩ : Shape).toJson.write = "\x7b\"dims\":[2,3]\x7d" ∧
    ofText? (⟨[2, 3]⟩ : Shape).toJson.write = some ⟨[2, 3]⟩ := by
  have hshape : ofText? "[[2,3]]" = some ⟨[2, 3]⟩ := by decide +kernel
  have hmade : Made {"[[2,3]]"} ⟨[2, 3]⟩ := .ofText rfl hshape
  obtain ⟨⟨-, haxes⟩, -, hwritten⟩ := made_axes_iff {"[[2,3]]"}
  refine ⟨⟨_, hshape, hmade, rfl⟩, haxes ?_, by decide +kernel, hwritten _ hmade (by decide)⟩
  rintro text rfl j hj hdims
  have hnil := ofText?_eq_nil_iff.2 ⟨j, hj, hdims⟩
  exact absurd (hshape.symm.trans hnil) (by decide)

/-- A shape without axes can be made: by reading either of its written forms. -/
theorem made_without_axes : ∃ s, ofText? "\x7b\"dims\":[]\x7d" = some s ∧
    ofText? "[[]]" = some s ∧ Made {"\x7b\"dims\":[]\x7d"} s ∧ ¬1 ≤ s.rank ∧
    s.lastDim? = none ∧ ∀ size, s.withLastDim? size = none := by
  have hobject : ofText? "\x7b\"dims\":[]\x7d" = some ⟨[]⟩ := by decide +kernel
  have harray : ofText? "[[]]" = some ⟨[]⟩ := by decide +kernel
  exact ⟨⟨[]⟩, hobject, harray, .ofText rfl hobject, by decide, rfl, fun _ => rfl⟩

end Shape

end TraceSubstitution
