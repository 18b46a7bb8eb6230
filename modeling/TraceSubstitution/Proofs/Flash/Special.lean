import TraceSubstitution.Proofs.Flash.Isolation
import TraceSubstitution.Proofs.Scalar.Special

/-!
# Special values in the fused kernel

A key may have the lowest score, when the product of the query and the key is not finite. Its
weight is zero as soon as there is a finite score, and it does no harm: all sums stay finite
unless they become too large (`Stream.Sound.addKeys`). But a block that has nothing but lowest
scores is rescaled by the exponential of a difference that is not a number, if no other score came
before, and this spoils all sums for good (`Stream.Spoilt.addKeys`). So what becomes of a row is
decided by its first block: `reference_forward_special`. The softmax of the reference
implementation looks at the largest score first and gives such keys no weight
(`softmax_of_lowest`).
-/

namespace TraceSubstitution

namespace Flash

open Attention LawfulSpecialValues

variable {α : Type} [Scalar α]

namespace Stream

/-- The largest score of a stream and a block of keys. -/
def topWith (s : Stream α) (block : List (α × List α)) : α :=
  Scalar.max s.top (Scalar.maximum (block.map (·.1)))

/-- What is known, relative to the largest score of a block as well. -/
def rescale (s : Stream α) (block : List (α × List α)) : Stream α :=
  let correction := Scalar.exp (s.top - s.topWith block)
  ⟨s.topWith block, s.total * correction, s.acc.map (· * correction)⟩

theorem addBlock_eq (s : Stream α) (block : List (α × List α)) :
    s.addBlock block = block.foldl (fun s e => s.addKey e.1 e.2) (s.rescale block) := rfl

/-- What is known while a block is taken in: before it, and after each of its keys. -/
def blockStates (s : Stream α) (block : List (α × List α)) : List (Stream α) :=
  block.scanl (fun s e => s.addKey e.1 e.2) (s.rescale block)

/-- What is known while a list of keys is taken in, in blocks of `size`. -/
def states (size : Nat) (s : Stream α) : List (α × List α) → List (Stream α)
  | [] => []
  | key :: keys =>
    s.blockStates (key :: keys.take (size - 1)) ++
      (s.addBlock (key :: keys.take (size - 1))).states size (keys.drop (size - 1))
termination_by keys => keys.length
decreasing_by simp only [List.length_drop, List.length_cons]; omega

theorem states_of_ne_nil {size : Nat} (hsize : 0 < size) (s : Stream α)
    {keys : List (α × List α)} (hkeys : keys ≠ []) :
    s.states size keys = s.blockStates (keys.take size) ++
      (s.addBlock (keys.take size)).states size (keys.drop size) := by
  obtain ⟨n, rfl⟩ := Nat.exists_eq_succ_of_ne_zero (Nat.ne_of_gt hsize)
  cases keys with
  | nil => exact absurd rfl hkeys
  | cons key keys => rw [states]; rfl

variable [SpecialValues α]

/-- No sum is infinite. -/
def Bounded (s : Stream α) : Prop := ¬IsInfinite s.total ∧ ∀ x ∈ s.acc, ¬IsInfinite x

/-- All sums are finite. -/
def Sound (s : Stream α) : Prop := IsFinite s.total ∧ ∀ x ∈ s.acc, IsFinite x

/-- No sum is a number. -/
def Spoilt (s : Stream α) : Prop := IsNaN s.total ∧ ∀ x ∈ s.acc, IsNaN x

variable [LawfulSpecialValues α] {s : Stream α} {size width : Nat} {block keys : List (α × List α)}

/-! ### Spoilt sums -/

theorem Spoilt.addKey (h : s.Spoilt) (score : α) (value : List α) :
    (s.addKey score value).Spoilt := by
  refine ⟨isNaN_add_left _ h.1, fun x hx => ?_⟩
  obtain ⟨y, hy, z, -, rfl⟩ := exists_of_mem_zipWith hx
  exact isNaN_add_left _ (h.2 y hy)

theorem Spoilt.rescale (h : s.Spoilt) (block : List (α × List α)) : (s.rescale block).Spoilt := by
  refine ⟨isNaN_mul_left _ h.1, fun x hx => ?_⟩
  obtain ⟨y, hy, rfl⟩ := List.mem_map.1 hx
  exact isNaN_mul_left _ (h.2 y hy)

theorem Spoilt.foldl (h : s.Spoilt) (block : List (α × List α)) :
    (block.foldl (fun s e => s.addKey e.1 e.2) s).Spoilt :=
  List.foldlRecOn (motive := Spoilt) block _ h fun _ hs e _ => hs.addKey e.1 e.2

/-- Sums that are spoilt stay so. -/
theorem Spoilt.addKeys (h : s.Spoilt) : (s.addKeys size keys).Spoilt := by
  fun_induction Stream.addKeys size s keys with
  | case1 s => exact h
  | case2 s key keys ih => exact ih ((h.rescale _).foldl _)

/-- A block in which all scores are the lowest one spoils the sums if no larger score came
before. -/
theorem spoilt_rescale (htop : s.top = Scalar.lowest) (h : ∀ e ∈ block, e.1 = Scalar.lowest) :
    (s.rescale block).Spoilt := by
  have htopWith : s.topWith block = Scalar.lowest := by
    unfold topWith
    rw [htop, maximum_lowest (List.forall_mem_map.2 h), max_lowest_lowest]
  have hcorrection : IsNaN (Scalar.exp (s.top - s.topWith block)) := by
    rw [htop, htopWith]
    exact isNaN_exp isNaN_lowest_sub_lowest
  refine ⟨isNaN_mul_right _ hcorrection, fun x hx => ?_⟩
  obtain ⟨y, -, rfl⟩ := List.mem_map.1 hx
  exact isNaN_mul_right _ hcorrection

theorem Spoilt.finish (h : s.Spoilt) :
    (∀ x ∈ s.finish.1, IsNaN x) ∧ s.finish.2 = Scalar.lowest := by
  unfold Stream.finish
  rw [less_isNaN _ h.1]
  exact ⟨h.2, rfl⟩

/-! ### Sound sums -/

/-- Sums that are not infinite are finite if the sums before were and the weight is. -/
theorem Sound.addKey (h : s.Sound) {score : α} {value : List α}
    (hweight : IsFinite (Scalar.exp (score - s.top))) (hvalue : ∀ x ∈ value, IsFinite x)
    (hbounded : (s.addKey score value).Bounded) : (s.addKey score value).Sound := by
  refine ⟨⟨add_number h.1 hweight.1, hbounded.1⟩, fun x hx => ⟨?_, hbounded.2 x hx⟩⟩
  obtain ⟨y, hy, z, hz, rfl⟩ := exists_of_mem_zipWith hx
  exact add_number (h.2 y hy) (mul_number hweight (hvalue z hz))

/-- The states of a block begin with the one before its keys. -/
theorem head_mem_scanl {β γ : Type} (f : β → γ → β) (b : β) (xs : List γ) : b ∈ xs.scanl f b := by
  cases xs <;> simp

/-- Keys below the largest score keep finite sums finite. -/
theorem Sound.foldl (h : s.Sound) (htop : IsFinite s.top)
    (hblock : ∀ e ∈ block, IsScore e.1 ∧ Scalar.less s.top e.1 = false ∧ ∀ x ∈ e.2, IsFinite x)
    (hbounded : ∀ t ∈ block.scanl (fun s e => s.addKey e.1 e.2) s, t.Bounded) :
    (block.foldl (fun s e => s.addKey e.1 e.2) s).Sound ∧
      (block.foldl (fun s e => s.addKey e.1 e.2) s).top = s.top := by
  induction block generalizing s with
  | nil => exact ⟨h, rfl⟩
  | cons e block ih =>
    obtain ⟨⟨hscore, hle, hvalue⟩, hblock⟩ := List.forall_mem_cons.1 hblock
    rw [List.scanl_cons] at hbounded
    obtain ⟨-, hbounded⟩ := List.forall_mem_cons.1 hbounded
    exact ih (h.addKey (isFinite_weight hscore htop hle) hvalue
      (hbounded _ (head_mem_scanl ..))) htop hblock hbounded

/-- Rescaled sums that are not infinite are finite if the weight of the old sums is. -/
theorem Sound.rescale (h : s.Sound) (hweight : IsFinite (Scalar.exp (s.top - s.topWith block)))
    (hbounded : (s.rescale block).Bounded) : (s.rescale block).Sound := by
  refine ⟨⟨mul_number h.1 hweight, hbounded.1⟩, fun x hx => ⟨?_, hbounded.2 x hx⟩⟩
  obtain ⟨y, hy, rfl⟩ := List.mem_map.1 hx
  exact mul_number (h.2 y hy) hweight

/-- A finite score, before a block or in it, makes the largest score finite. -/
theorem isFinite_topWith (htop : IsScore s.top) (hblock : ∀ e ∈ block, IsScore e.1)
    (hfinite : IsFinite s.top ∨ ∃ e ∈ block, IsFinite e.1) :
    IsFinite (s.topWith block) ∧ Scalar.less (s.topWith block) s.top = false ∧
      ∀ e ∈ block, Scalar.less (s.topWith block) e.1 = false := by
  obtain ⟨hmaximum, hle⟩ := isScore_maximum (List.forall_mem_map.2 hblock)
  have htopWith := htop.max hmaximum
  have hless : ∀ e ∈ block, Scalar.less (s.topWith block) e.1 = false := fun e he =>
    less_trans (hblock e he) hmaximum htopWith (hle e.1 (List.mem_map_of_mem he))
      (less_max_right htop hmaximum)
  refine ⟨?_, less_max_left htop hmaximum, hless⟩
  obtain hfinite | ⟨e, he, hfinite⟩ := hfinite
  · exact htopWith.isFinite_of_not_less hfinite (less_max_left htop hmaximum)
  · exact htopWith.isFinite_of_not_less hfinite (hless e he)

/-- A block keeps finite sums finite as soon as there is a finite score. -/
theorem Sound.addBlock (h : s.Sound) (htop : IsScore s.top)
    (hblock : ∀ e ∈ block, IsScore e.1 ∧ ∀ x ∈ e.2, IsFinite x)
    (hfinite : IsFinite s.top ∨ ∃ e ∈ block, IsFinite e.1)
    (hbounded : ∀ t ∈ s.blockStates block, t.Bounded) :
    (s.addBlock block).Sound ∧ IsFinite (s.addBlock block).top := by
  obtain ⟨htopWith, hold, hless⟩ := isFinite_topWith htop (fun e he => (hblock e he).1) hfinite
  have hrescale : (s.rescale block).Sound :=
    h.rescale (isFinite_weight htop htopWith hold) (hbounded _ (head_mem_scanl ..))
  obtain ⟨hsound, htop⟩ := hrescale.foldl htopWith
    (fun e he => ⟨(hblock e he).1, hless e he, (hblock e he).2⟩) hbounded
  rw [addBlock_eq]
  exact ⟨hsound, htop ▸ htopWith⟩

/-- Once there is a finite score, all sums stay finite. -/
theorem Sound.addKeys (h : s.Sound) (htop : IsFinite s.top)
    (hkeys : ∀ e ∈ keys, IsScore e.1 ∧ ∀ x ∈ e.2, IsFinite x)
    (hbounded : ∀ t ∈ s.states size keys, t.Bounded) :
    (s.addKeys size keys).Sound ∧ IsFinite (s.addKeys size keys).top := by
  fun_induction Stream.addKeys size s keys with
  | case1 s => exact ⟨h, htop⟩
  | case2 s key keys ih =>
    rw [states] at hbounded
    obtain ⟨hfirst, hrest⟩ := List.forall_mem_append.1 hbounded
    obtain ⟨hkey, hkeys⟩ := List.forall_mem_cons.1 hkeys
    obtain ⟨hsound, htop⟩ := h.addBlock (.inr htop)
      (List.forall_mem_cons.2 ⟨hkey, fun e he => hkeys e (List.mem_of_mem_take he)⟩)
      (.inl htop) hfirst
    exact ih hsound htop (fun e he => hkeys e (List.mem_of_mem_drop he)) hrest

theorem Sound.finish (h : s.Sound) (htop : IsFinite s.top) :
    (∀ x ∈ s.finish.1, ¬IsNaN x) ∧ ¬IsNaN s.finish.2 := by
  unfold Stream.finish
  split
  · next htotal =>
    refine ⟨fun x hx => ?_, add_number htop (log_number htotal)⟩
    obtain ⟨y, hy, rfl⟩ := List.mem_map.1 hx
    exact div_number (h.2 y hy) h.1 htotal
  · exact ⟨fun x hx => (h.2 x hx).1, lowest_number⟩

/-! ### A whole pass -/

theorem sound_start (width : Nat) : (start width : Stream α).Sound := by
  refine ⟨isFinite_zero, fun x hx => ?_⟩
  rw [List.eq_of_mem_replicate hx]
  exact isFinite_zero

theorem finish_start (width : Nat) :
    (start width : Stream α).finish = (List.replicate width Scalar.zero, Scalar.lowest) := by
  unfold Stream.finish
  rw [show (start width : Stream α).total = Scalar.zero from rfl, less_irrefl (.inr isFinite_zero)]
  rfl

/-- If all scores of the first block are the lowest one, the output of the pass is spoilt. -/
theorem finish_of_lowest (width : Nat) (hsize : 0 < size) (hkeys : keys ≠ [])
    (h : ∀ e ∈ keys.take size, e.1 = Scalar.lowest) :
    (∀ x ∈ ((start width).addKeys size keys).finish.1, IsNaN x) ∧
      ((start width).addKeys size keys).finish.2 = Scalar.lowest := by
  rw [addKeys_of_ne_nil hsize _ hkeys]
  exact ((spoilt_rescale rfl h).foldl _).addKeys.finish

/-- If a score of the first block is finite, the output consists of numbers. -/
theorem finish_of_finite (hsize : 0 < size)
    (hkeys : ∀ e ∈ keys, IsScore e.1 ∧ ∀ x ∈ e.2, IsFinite x)
    (hfinite : ∃ e ∈ keys.take size, IsFinite e.1)
    (hbounded : ∀ t ∈ (start width).states size keys, t.Bounded) :
    (∀ x ∈ ((start width).addKeys size keys).finish.1, ¬IsNaN x) ∧
      ¬IsNaN ((start width).addKeys size keys).finish.2 := by
  have hne : keys ≠ [] := by
    rintro rfl
    obtain ⟨e, he, -⟩ := hfinite
    rw [List.take_nil] at he
    exact nomatch he
  rw [states_of_ne_nil hsize _ hne] at hbounded
  obtain ⟨hfirst, hrest⟩ := List.forall_mem_append.1 hbounded
  obtain ⟨hsound, htop⟩ := (sound_start width).addBlock isScore_lowest
    (fun e he => hkeys e (List.mem_of_mem_take he)) (.inr hfinite) hfirst
  obtain ⟨hsound, htop⟩ := hsound.addKeys htop (fun e he => hkeys e (List.mem_of_mem_drop he)) hrest
  rw [addKeys_of_ne_nil hsize _ hne]
  exact hsound.finish htop

end Stream

section

variable (l : Layout) (q k v : Tensor α) (scale : α) (causal : Bool)

/-- The scores of the keys that query `i` of a head sees, with the values of these keys. -/
def scoredKeys (head i : Nat) : List (α × List α) :=
  (seenKeys l (k.asRows l.depth) (v.asRows l.valueDepth) head i causal).map fun (key, value) =>
    (scale * Scalar.dot ((q.asRows l.depth).values (head * l.queries + i)) key, value)

theorem attendAt_eq (blockSize head i : Nat) :
    attendAt l blockSize (q.asRows l.depth) (k.asRows l.depth) (v.asRows l.valueDepth) scale causal
        head i =
      ((Stream.start l.valueDepth).addKeys blockSize
        (scoredKeys l q k v scale causal head i)).finish := rfl

end

variable [SpecialValues α]

/-- What the output row of a query and its logarithm are like, from the scores of the keys that it
sees, which come in blocks of `size`. -/
structure RowOutcome (size width : Nat) (seen : List (α × List α)) (row log : List α) : Prop where
  /-- The row has its width. -/
  length : row.length = width
  /-- A query that sees nothing has a row of zeros. -/
  unseen : seen = [] → row = List.replicate width Scalar.zero ∧ log = [Scalar.lowest]
  /-- A first block in which all scores are the lowest one spoils the row. -/
  spoilt : seen ≠ [] → (∀ e ∈ seen.take size, e.1 = Scalar.lowest) →
    (∀ x ∈ row, IsNaN x) ∧ log = [Scalar.lowest]
  /-- A finite score in the first block keeps the row, if no sum is infinite on the way. -/
  sound : (∀ e ∈ seen, IsScore e.1 ∧ ∀ x ∈ e.2, IsFinite x) →
    (∃ e ∈ seen.take size, IsFinite e.1) →
    (∀ s ∈ (Stream.start width).states size seen, s.Bounded) →
      (∀ x ∈ row, ¬IsNaN x) ∧ ∀ x ∈ log, ¬IsNaN x

variable [LawfulSpecialValues α]

/-- The output of a pass, narrowed to the element type of the result. -/
theorem rowOutcome_finish {size width : Nat} (hsize : 0 < size) {seen : List (α × List α)}
    (hseen : ∀ e ∈ seen, e.2.length = width) (d : DType) :
    RowOutcome size width seen
      (((Stream.start width).addKeys size seen).finish.1.map (Scalar.narrow d))
      [((Stream.start width).addKeys size seen).finish.2] where
  length := by
    rw [List.length_map]
    exact Stream.length_finish (Stream.length_addKeys (List.length_replicate ..) hseen)
  unseen := by
    rintro rfl
    rw [Stream.addKeys_nil, Stream.finish_start, List.map_replicate, narrow_zero]
    exact ⟨rfl, rfl⟩
  spoilt hne h := by
    obtain ⟨hrow, hlog⟩ := Stream.finish_of_lowest width hsize hne h
    exact ⟨List.forall_mem_map.2 fun x hx => (isNaN_narrow d x).2 (hrow x hx), by rw [hlog]⟩
  sound hkeys hfinite hbounded := by
    obtain ⟨hrow, hlog⟩ := Stream.finish_of_finite hsize hkeys hfinite hbounded
    exact ⟨List.forall_mem_map.2 fun x hx => (isNaN_narrow d x).not.2 (hrow x hx),
      List.forall_mem_singleton.2 hlog⟩

/-- Every row of the output is as the scores of its query tell. -/
theorem exists_forward_rowOutcome {l : Layout} {q k v : Tensor α} (hlayout : layout q k v = .ok l)
    {blockSize : Nat} (hsize : 0 < blockSize) (scale : α) (causal : Bool) :
    ∃ r, forward blockSize q k v scale causal = .ok r ∧ ∀ head < l.heads, ∀ i < l.queries,
      RowOutcome blockSize l.valueDepth (scoredKeys l q k v scale causal head i)
        (rowOf r.primary.elements l.valueDepth (head * l.queries + i))
        (rowOf r.auxiliary.elements 1 (head * l.queries + i)) := by
  obtain ⟨-, -, -, outer, inner, hl⟩ := exists_describes hlayout
  obtain ⟨r, hr, -, -, hprimary, hauxiliary⟩ := hl.exists_forward hlayout blockSize scale causal
  refine ⟨r, hr, fun head hhead i hi => ?_⟩
  rw [hprimary, hauxiliary, rowOf_map, rowOf_map, rowOf_map, map_table,
    rowOf_table (fun b hb i _ => length_attendAt hl.holds_key hl.holds_value _ _ _ rfl hb i) hhead
      hi, rowOf_one (getElem?_table _ hhead hi), attendAt_eq]
  refine rowOutcome_finish hsize (fun e he => ?_) q.type.dtype
  obtain ⟨key, hkey, rfl⟩ := List.mem_map.1 he
  exact (length_of_mem_seenKeys hl.holds_key hl.holds_value hhead hkey).2

/-- The softmax of the reference implementation gives keys of the lowest score no weight. -/
theorem softmax_of_lowest (hsame : Scalar.same (Scalar.lowest : α) Scalar.lowest = true)
    {scores : List α} (h : ∀ x ∈ scores, x = Scalar.lowest) :
    Problem.softmax scores = List.replicate scores.length Scalar.zero := by
  unfold Problem.softmax
  rw [maximum_lowest h]
  exact (if_pos hsame).trans (List.map_const' ..)

theorem exists_reference_forward_rowOutcome (config : FlashConfig) (blockSize : Nat) (probe : Bool)
    {l : Layout} {q k v : Tensor α} (hlayout : layout q k v = .ok l) (scale : α) (causal : Bool) :
    ∃ r, (reference config blockSize probe).forward q k v scale causal = (do
        l.reserveForward (max blockSize 1)
        return r) ∧
      ∀ head < l.heads, ∀ i < l.queries,
        RowOutcome (max blockSize 1) l.valueDepth (scoredKeys l q k v scale causal head i)
          (rowOf r.primary.elements l.valueDepth (head * l.queries + i))
          (rowOf r.auxiliary.elements 1 (head * l.queries + i)) := by
  obtain ⟨r, hr, hrows⟩ := exists_forward_rowOutcome hlayout
    (Nat.lt_of_lt_of_le Nat.zero_lt_one (Nat.le_max_right blockSize 1)) scale causal
  refine ⟨r, ?_, hrows⟩
  simp only [reference, hlayout, ok_bind, hr, pure_eq_ok]

/-- Keys of the lowest score do no harm unless they fill the first block. For operands that the
kernel accepts, and once its buffers exist, it returns rows of which the following is known. A query
that sees nothing has a row of zeros and the lowest logarithm. If all scores of the first block are
the lowest one, the row has no number in it and the logarithm is the lowest one, whatever comes
later. If a score of the first block is finite, the others are finite or the lowest one, the values
are finite, and no sum becomes infinite on the way, then the row and the logarithm are numbers, or
infinite if a quotient is. -/
theorem reference_forward_special {exp log : Float32 → Float32} (h : Single.Exponential exp log)
    (config : FlashConfig) (blockSize : Nat) (probe : Bool) {l : Layout} {q k v : Tensor Float32}
    (hlayout : layout q k v = .ok l) (scale : Float32) (causal : Bool) :
    letI := Single.scalarWith exp log
    ∃ r, (reference config blockSize probe).forward q k v scale causal = (do
        l.reserveForward (max blockSize 1)
        return r) ∧
      ∀ head < l.heads, ∀ i < l.queries,
        RowOutcome (max blockSize 1) l.valueDepth (scoredKeys l q k v scale causal head i)
          (rowOf r.primary.elements l.valueDepth (head * l.queries + i))
          (rowOf r.auxiliary.elements 1 (head * l.queries + i)) := by
  let _ := Single.scalarWith exp log
  have := Single.lawful_scalarWith h
  exact exists_reference_forward_rowOutcome config blockSize probe hlayout scale causal

/-- One head with one row of width one. -/
def oneRow (a : Float32) : Tensor Float32 :=
  Tensor.dense ⟨⟨[1, 1, 1, 1]⟩, .f32, .host⟩ #[a] rfl

theorem elements_oneRow (a : Float32) : (oneRow a).elements = [a] := Tensor.elements_dense ..

/-- The first key has the lowest score, and the second one a score of zero. -/
def lowestThenZero : List (Float32 × List Float32) := [(Single.negInfinity, [1.0]), (0.0, [2.0])]

theorem scoredKeys_lowestThenZero :
    letI := Single.scalarWith Single.stepExp Single.stepLog
    scoredKeys ⟨1, 1, 2, 1, 1⟩ (oneRow 1) (twoRows Single.negInfinity 0) (twoRows 1 2) 1 false 0 0 =
      lowestThenZero := by
  simp only [scoredKeys, seenKeys, values_asRows, elements_oneRow, elements_twoRows]
  rfl

theorem states_lowestThenZero :
    letI := Single.scalarWith Single.stepExp Single.stepLog
    (Stream.start 1).states 2 lowestThenZero =
      [⟨0.0, 0.0, [0.0]⟩, ⟨0.0, 0.0, [0.0]⟩, ⟨0.0, 1.0, [2.0]⟩] := by
  simp only [lowestThenZero, Stream.states, Stream.blockStates, List.take, List.scanl_cons,
    List.scanl_nil, List.append_nil, Nat.add_one_sub_one, List.drop]
  rfl

/-- Together with a finite score, a key of the lowest score does no harm; in a block of its own
before it, it does. -/
theorem reference_forward_special_lowestThenZero :
    letI := Single.scalarWith Single.stepExp Single.stepLog
    (∃ r, (reference .standard 2 true).forward (oneRow 1) (twoRows Single.negInfinity 0)
        (twoRows 1 2) 1 false = .ok r ∧
      (rowOf r.primary.elements 1 0).length = 1 ∧ ∀ x ∈ rowOf r.primary.elements 1 0, ¬IsNaN x) ∧
    ∃ r, (reference .standard 1 true).forward (oneRow 1) (twoRows Single.negInfinity 0)
        (twoRows 1 2) 1 false = .ok r ∧
      (rowOf r.primary.elements 1 0).length = 1 ∧ (∀ x ∈ rowOf r.primary.elements 1 0, IsNaN x) ∧
      rowOf r.auxiliary.elements 1 0 = [Single.negInfinity] := by
  let _ := Single.scalarWith Single.stepExp Single.stepLog
  have hspecial := fun blockSize => reference_forward_special Single.exponential_step .standard
    blockSize true (l := ⟨1, 1, 2, 1, 1⟩) (q := oneRow 1) (k := twoRows Single.negInfinity 0)
    (v := twoRows 1 2) rfl 1 false
  obtain ⟨r, hr, hrows⟩ := hspecial 2
  obtain ⟨r', hr', hrows'⟩ := hspecial 1
  have hrow := hrows 0 Nat.one_pos 0 Nat.one_pos
  have hrow' := hrows' 0 Nat.one_pos 0 Nat.one_pos
  rw [scoredKeys_lowestThenZero] at hrow hrow'
  have hfinite : IsFinite (0.0 : Float32) := Single.isFinite_iff.2 rfl
  have hone : IsFinite (1.0 : Float32) := Single.isFinite_iff.2 rfl
  have htwo : IsFinite (2.0 : Float32) := Single.isFinite_iff.2 rfl
  have hkeys : ∀ e ∈ lowestThenZero, IsScore e.1 ∧ ∀ x ∈ e.2, IsFinite x :=
    List.forall_mem_cons.2 ⟨⟨.inl rfl, List.forall_mem_singleton.2 hone⟩,
      List.forall_mem_singleton.2 ⟨.inr hfinite, List.forall_mem_singleton.2 htwo⟩⟩
  have hbounded : ∀ s ∈ (Stream.start 1).states 2 lowestThenZero, s.Bounded := by
    rw [states_lowestThenZero]
    refine List.forall_mem_cons.2 ⟨⟨hfinite.2, List.forall_mem_singleton.2 hfinite.2⟩,
      List.forall_mem_cons.2 ⟨⟨hfinite.2, List.forall_mem_singleton.2 hfinite.2⟩, ?_⟩⟩
    exact List.forall_mem_singleton.2 ⟨hone.2, List.forall_mem_singleton.2 htwo.2⟩
  have hsound := hrow.sound hkeys ⟨_, List.mem_cons_of_mem _ List.mem_cons_self, hfinite⟩ hbounded
  have hspoilt := hrow'.spoilt nofun (List.forall_mem_singleton.2 rfl)
  exact ⟨⟨r, hr.trans rfl, hrow.length, hsound.1⟩, r', hr'.trans rfl, hrow'.length, hspoilt⟩

theorem scoredKeys_oneRow :
    letI := Single.scalarWith Single.stepExp Single.stepLog
    scoredKeys ⟨1, 1, 1, 1, 1⟩ (oneRow 1) (oneRow Single.negInfinity) (oneRow 1) 1 false 0 0 =
      [(Single.negInfinity, [1.0])] := by
  simp only [scoredKeys, seenKeys, values_asRows, elements_oneRow]
  rfl

/-- A query whose only key has the lowest score gets a row that is no row of zeros, where the
softmax of the reference implementation gives the key no weight. -/
theorem reference_forward_spoils_oneRow :
    letI := Single.scalarWith Single.stepExp Single.stepLog
    (∃ r, (reference .standard 64 true).forward (oneRow 1) (oneRow Single.negInfinity) (oneRow 1)
        1 false = .ok r ∧
      scoredKeys ⟨1, 1, 1, 1, 1⟩ (oneRow 1) (oneRow Single.negInfinity) (oneRow 1) 1 false 0 0 =
        [(Single.negInfinity, [1.0])] ∧
      (∀ x ∈ rowOf r.primary.elements 1 0, IsNaN x) ∧ rowOf r.primary.elements 1 0 ≠ [0.0]) ∧
    Problem.softmax [Single.negInfinity] = [0.0] := by
  let _ := Single.scalarWith Single.stepExp Single.stepLog
  have := Single.lawful_scalarWith Single.exponential_step
  obtain ⟨r, hr, hrows⟩ := exists_reference_forward_rowOutcome .standard 64 true
    (l := ⟨1, 1, 1, 1, 1⟩) (q := oneRow 1) (k := oneRow Single.negInfinity) (v := oneRow 1) rfl
    (1 : Float32) false
  have hrow := hrows 0 Nat.one_pos 0 Nat.one_pos
  rw [scoredKeys_oneRow] at hrow
  obtain ⟨hspoilt, -⟩ := hrow.spoilt nofun (List.forall_mem_singleton.2 rfl)
  refine ⟨⟨r, hr.trans rfl, scoredKeys_oneRow, hspoilt, fun hzero => ?_⟩, ?_⟩
  · have hnan := hspoilt 0.0 (hzero ▸ List.mem_singleton_self _)
    exact isFinite_zero.1 hnan
  · exact softmax_of_lowest rfl (List.forall_mem_singleton.2 rfl)

end Flash

end TraceSubstitution
