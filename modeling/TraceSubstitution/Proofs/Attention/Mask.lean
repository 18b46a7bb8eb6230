import TraceSubstitution.Attention.Mask
import TraceSubstitution.Proofs.Tensor.Odometer

/-!
# Reading a mask for every score

A mask is accepted if each of its axes, counted from the right, is as long as that of
the scores or of size one (`Aligned`). The score at an index then gets the value that
the mask has at the index without the leading axes, and with zero along the axes of
size one (`maskIndex`). The steps of `broadcastStrides` lead to it: an axis that the
mask has in full is walked with its own step, and an axis of size one, or one that it
lacks, with a step of zero (`shift_broadcastStrides`). So every position that
`broadcast` reads lies inside the dense mask, and each score gets the value at its
index (`getElem?_broadcast`).
-/

namespace TraceSubstitution

/-- Whether every axis of a mask is, counted from the right, as long as that of the scores, or of
size one. -/
def Aligned (source target : List Nat) : Prop :=
  source.length ≤ target.length ∧
    List.Forall₂ (fun d t => d = t ∨ d = 1) source (target.drop (target.length - source.length))

/-- The index of a mask along axes that are matched one by one. -/
def matchedIndex (source index : List Nat) : List Nat :=
  List.zipWith (fun d i => if d = 1 then 0 else i) source index

/-- The index at which a mask is read for an index of the scores: without the leading axes, and
zero along axes of size one. -/
def maskIndex (source index : List Nat) : List Nat :=
  matchedIndex source (index.drop (index.length - source.length))

section

variable {source target strides index : List Nat}

theorem length_matchedStrides? : ∀ {source target strides : List Nat},
    matchedStrides? source (rowMajor source) target = some strides →
      source.length = target.length → strides.length = target.length
  | [], [], strides, h, _ => by
    obtain rfl := Option.some.inj h
    rfl
  | d :: source, t :: target, strides, h, hlength => by
    rw [rowMajor_cons, matchedStrides?] at h
    obtain ⟨step, -, h⟩ := Option.bind_eq_some_iff.1 h
    obtain ⟨rest, hrest, rfl⟩ := Option.map_eq_some_iff.1 h
    exact congrArg (· + 1) (length_matchedStrides? hrest (Nat.succ.inj hlength))

theorem exists_matchedStrides?_iff : ∀ {source target : List Nat},
    source.length = target.length →
      ((∃ strides, matchedStrides? source (rowMajor source) target = some strides) ↔
        List.Forall₂ (fun d t => d = t ∨ d = 1) source target)
  | [], [], _ => iff_of_true ⟨[], rfl⟩ .nil
  | d :: source, t :: target, h => by
    rw [List.forall₂_cons, ← exists_matchedStrides?_iff (Nat.succ.inj h)]
    simp only [rowMajor_cons, matchedStrides?]
    by_cases hlong : d = t
    · simp [hlong]
    · rw [if_neg hlong]
      by_cases hone : d = 1 <;> simp [hlong, hone]

/-- The steps along matched axes lead to the element at the matched index. -/
theorem shift_matchedStrides? : ∀ {source target strides index : List Nat},
    matchedStrides? source (rowMajor source) target = some strides →
      source.length = target.length → Inside index target →
        Inside (matchedIndex source index) source ∧
          shift index strides = ordinal source (matchedIndex source index)
  | [], [], _, [], h, _, _ => by
    obtain rfl := Option.some.inj h
    exact ⟨.nil, rfl⟩
  | d :: source, t :: target, _, i :: index, h, hlength, .cons hi hrest => by
    rw [rowMajor_cons, matchedStrides?] at h
    obtain ⟨step, hstep, h⟩ := Option.bind_eq_some_iff.1 h
    obtain ⟨strides, hstrides, rfl⟩ := Option.map_eq_some_iff.1 h
    obtain ⟨hinside, hshift⟩ := shift_matchedStrides? hstrides (Nat.succ.inj hlength) hrest
    have hfirst : (if d = 1 then 0 else i) < d ∧
        i * step = (if d = 1 then 0 else i) * volume source := by
      by_cases hlong : d = t
      · rw [if_pos hlong] at hstep
        obtain rfl := Option.some.inj hstep
        subst hlong
        split
        · next hone =>
          -- an axis of size one that the scores have too has one index anyway
          obtain rfl : i = 0 := by omega
          exact ⟨hi, rfl⟩
        · exact ⟨hi, rfl⟩
      · rw [if_neg hlong] at hstep
        obtain ⟨hone, hzero⟩ := Option.ite_none_right_eq_some.1 hstep
        obtain rfl := Option.some.inj hzero
        simp [hone]
    refine ⟨.cons hfirst.1 hinside, ?_⟩
    rw [shift_cons, hshift, hfirst.2]
    rfl

/-- Leading steps of zero do not move the position. -/
theorem shift_replicate_append (pad : Nat) (index strides : List Nat) :
    shift index (List.replicate pad 0 ++ strides) = shift (index.drop pad) strides := by
  induction pad generalizing index with
  | zero => rfl
  | succ pad ih =>
    cases index with
    | nil => simp
    | cons i index => simp [List.replicate_succ, ih]

theorem broadcastStrides_eq_ok_iff :
    broadcastStrides source target = .ok strides ↔
      source.length ≤ target.length ∧ source ≠ [] ∧ ∃ matched,
        matchedStrides? source (rowMajor source)
            (target.drop (target.length - source.length)) = some matched ∧
          strides = List.replicate (target.length - source.length) 0 ++ matched := by
  unfold broadcastStrides
  rw [check_bind_eq_ok_iff, ensure_eq_ok_iff, decide_eq_true_iff]
  simp only [bind_eq_ok_iff, orPanic_eq_ok_iff, orError_eq_ok_iff, Shape.ofDims?_eq_some_iff,
    pure_eq_ok, Except.ok.injEq]
  constructor
  · rintro ⟨hle, shape, ⟨hne, rfl⟩, matched, hmatched, rfl⟩
    exact ⟨hle, hne, matched, hmatched, rfl⟩
  · rintro ⟨hle, hne, matched, hmatched, rfl⟩
    exact ⟨hle, ⟨source⟩, ⟨hne, rfl⟩, matched, hmatched, rfl⟩

/-- A mask is accepted exactly if it is aligned with the scores. -/
theorem exists_broadcastStrides_iff (h : source ≠ []) :
    (∃ strides, broadcastStrides source target = .ok strides) ↔ Aligned source target := by
  have hdrop (hle : source.length ≤ target.length) :
      source.length = (target.drop (target.length - source.length)).length := by
    rw [List.length_drop]
    omega
  simp only [broadcastStrides_eq_ok_iff]
  constructor
  · rintro ⟨-, hle, -, matched, hmatched, -⟩
    exact ⟨hle, (exists_matchedStrides?_iff (hdrop hle)).1 ⟨matched, hmatched⟩⟩
  · rintro ⟨hle, haxes⟩
    obtain ⟨matched, hmatched⟩ := (exists_matchedStrides?_iff (hdrop hle)).2 haxes
    exact ⟨_, hle, h, matched, hmatched, rfl⟩

/-- A mask with an axis is accepted or refused. -/
theorem reports_broadcastStrides (h : source ≠ []) :
    Reports (broadcastStrides source target) fun _ => True := by
  unfold broadcastStrides
  have hshape : Shape.ofDims? source = some ⟨source⟩ := Shape.ofDims?_eq_some_iff.2 ⟨h, rfl⟩
  simp [hshape]

theorem length_broadcastStrides (h : broadcastStrides source target = .ok strides) :
    target.length = strides.length := by
  obtain ⟨hle, -, matched, hmatched, rfl⟩ := broadcastStrides_eq_ok_iff.1 h
  rw [List.length_append, List.length_replicate, length_matchedStrides? hmatched (by simp; omega),
    List.length_drop]
  omega

/-- The steps of an accepted mask lead to its element at the index of the mask. -/
theorem shift_broadcastStrides (h : broadcastStrides source target = .ok strides)
    (hindex : Inside index target) : Inside (maskIndex source index) source ∧
      shift index strides = ordinal source (maskIndex source index) := by
  obtain ⟨hle, -, matched, hmatched, rfl⟩ := broadcastStrides_eq_ok_iff.1 h
  unfold maskIndex
  rw [shift_replicate_append, hindex.length_eq]
  exact shift_matchedStrides? hmatched (by simp; omega)
    (List.forall₂_drop _ hindex)

variable {α : Type} {data : Array α}

/-- The values for the scores are those that an odometer through the scores reads. -/
theorem broadcast_eq_readWalk (h : target.length = strides.length) :
    broadcast data target strides = readWalk data target strides 0 := by
  unfold broadcast
  rw [readWalk_eq data h]
  split
  · next hzero =>
    rw [List.eq_nil_of_length_eq_zero ((Tensor.length_positions h 0).trans hzero)]
    rfl
  · rfl

/-- A dense mask that is accepted has a value for every score. -/
theorem returns_broadcast (h : broadcastStrides source target = .ok strides)
    (hdata : data.size = volume source) :
    Returns (broadcast data target strides) (·.length = volume target) := by
  have hlength := length_broadcastStrides h
  rw [broadcast_eq_readWalk hlength, readWalk_eq data hlength]
  refine (Ends.mapM (R := fun _ => True) fun p hp => ?_).mono fun values _ hvalues =>
    hvalues.1.trans (Tensor.length_positions hlength 0)
  obtain ⟨index, hindex, rfl⟩ := exists_of_mem_positions hlength hp
  obtain ⟨hinside, hshift⟩ := shift_broadcastStrides h hindex
  have hlt : ordinal source (maskIndex source index) < data.size := hdata ▸ ordinal_lt hinside
  rw [Nat.zero_add, hshift, Array.getElem?_eq_getElem hlt]
  trivial

/-- The value for a score is that of the mask at the index of the mask. -/
theorem getElem?_broadcast {values : List α} (h : broadcastStrides source target = .ok strides)
    (hvalues : broadcast data target strides = .ok values) (hindex : Inside index target) :
    values[ordinal target index]? = data[ordinal source (maskIndex source index)]? := by
  have hlength := length_broadcastStrides h
  rw [broadcast_eq_readWalk hlength, readWalk_eq data hlength,
    mapM_eq_ok_iff fun _ _ => orPanic_eq_ok_iff] at hvalues
  have hentry := congrArg (·[ordinal target index]?) hvalues
  simp only [List.getElem?_map, getElem?_positions hindex hlength, Option.map_some,
    (shift_broadcastStrides h hindex).2, Nat.zero_add] at hentry
  cases hvalue : values[ordinal target index]? with
  | none => exact nomatch hentry.trans (congrArg _ hvalue)
  | some x => exact (Option.some.inj (hentry.trans (congrArg _ hvalue))).symm

end

end TraceSubstitution
