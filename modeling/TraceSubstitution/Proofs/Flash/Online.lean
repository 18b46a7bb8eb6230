import TraceSubstitution.Flash.Kernel
import TraceSubstitution.Proofs.Attention.Softmax

/-!
# The fused kernel computes a softmax

After some blocks of keys a stream holds the sums of attention over the keys that it
has read, all divided by the exponential of the largest score (`Stream.HasRead`). The
largest score does not matter for this: a block may raise it, and the sums are scaled
by the ratio of the two exponentials. So the same holds after a block of any size, and
after all of them, and what the stream yields in the end is exact attention.
-/

namespace TraceSubstitution

namespace Flash

open Attention Extended ExactScalars

variable {K : Type} [Field K] [LinearOrder K] [ExactScalars K]

/-- The score and the value of a key as scalars. -/
def scoredKey (e : K × List K) : Extended K × List (Extended K) := (of e.1, e.2.map of)

namespace Stream

/-- A stream relative to another score than its largest one. -/
def scaledTo {α : Type} [Scalar α] (s : Stream α) (top : α) : Stream α :=
  ⟨top, s.total * Scalar.exp (s.top - top), s.acc.map (· * Scalar.exp (s.top - top))⟩

/-- The sums of attention over some keys, divided by the exponential of `m`. -/
def relative (width : Nat) (m : K) (keys : List (K × List K)) : Stream (Extended K) where
  top := of m
  total := of (mass (keys.map (·.1)) / exp m)
  acc := ((gatherValues (List.replicate width 0) keys).map (· / exp m)).map of

/-- The stream has read these keys, and no others. -/
inductive HasRead (width : Nat) : Stream (Extended K) → List (K × List K) → Prop
  | start : HasRead width (start width) []
  | relative (m : K) (keys : List (K × List K)) : HasRead width (relative width m keys) keys

variable {width : Nat} {s : Stream (Extended K)} {keys : List (K × List K)}

/-- Taking in a key adds it to the sums. -/
theorem addKey_relative (m : K) (keys : List (K × List K)) (e : K × List K) :
    (relative width m keys).addKey (of e.1) (e.2.map of) = relative width m (keys ++ [e]) := by
  obtain ⟨score, value⟩ := e
  have hweight : Scalar.exp (of score - of m) = of (exp score / exp m) := by
    rw [of_sub, exp_of, exp_sub]
  unfold addKey relative
  simp only [hweight, of_add, addScaled_of, addMultiple_div, gatherValues_append,
    gatherValues_singleton, List.map_append, mass_append, List.map_singleton, mass_singleton,
    add_div]

theorem foldl_addKey_relative (m : K) (keys block : List (K × List K)) :
    (block.map scoredKey).foldl (fun s (score, value) => s.addKey score value)
      (relative width m keys) = relative width m (keys ++ block) := by
  induction block generalizing keys with
  | nil => rw [List.append_nil]; rfl
  | cons e block ih =>
    have hblock := ih (keys ++ [e])
    rw [← addKey_relative, List.append_assoc] at hblock
    exact hblock

/-- What a stream has read does not depend on the score that its sums are relative to. -/
theorem HasRead.scaledTo (h : HasRead width s keys) (m : K) :
    s.scaledTo (of m) = Stream.relative width m keys := by
  unfold Stream.scaledTo Stream.relative
  cases h with
  | start =>
    simp [Stream.start, mass, gatherValues]
  | relative m' =>
    have hratio : ∀ a : K, a / exp m' * (exp m' / exp m) = a / exp m := fun a =>
      div_mul_div_cancel₀ (exp_pos m').ne'
    simp [Stream.relative, exp_sub, hratio]

/-- A block raises the largest score to a number, if it has a key. -/
theorem exists_top (x : Extended K) {block : List (K × List K)} (h : block ≠ []) :
    ∃ m, Scalar.max x (Scalar.maximum ((block.map scoredKey).map (·.1))) = of m := by
  obtain ⟨e, block, rfl⟩ := List.exists_cons_of_ne_nil h
  have hmem : of e.1 ∈ ((e :: block).map scoredKey).map (·.1) := List.mem_cons_self
  obtain ⟨m, hm⟩ := exists_maximum hmem
  rw [hm]
  cases x with
  | lowest => exact ⟨m, rfl⟩
  | of a => exact ⟨a ⊔ m, rfl⟩

/-- A block of keys is read, whatever its largest score. -/
theorem HasRead.addBlock (h : HasRead width s keys) {block : List (K × List K)}
    (hblock : block ≠ []) : HasRead width (s.addBlock (block.map scoredKey)) (keys ++ block) := by
  obtain ⟨m, hm⟩ := exists_top s.top hblock
  have heq : s.addBlock (block.map scoredKey) = Stream.relative width m (keys ++ block) := by
    rw [← foldl_addKey_relative, ← h.scaledTo, ← hm]
    rfl
  exact heq ▸ .relative m _

/-- All blocks are read, whatever their size. -/
theorem HasRead.addKeys (size : Nat) (h : HasRead width s keys) (rest : List (K × List K)) :
    HasRead width (s.addKeys size (rest.map scoredKey)) (keys ++ rest) := by
  generalize hscored : rest.map scoredKey = scored
  -- The walk drops a whole block at a time, so the induction follows it and not the list.
  fun_induction Stream.addKeys size s scored generalizing keys rest with
  | case1 s =>
    obtain rfl := List.map_eq_nil_iff.1 hscored
    rwa [List.append_nil]
  | case2 s key scored ih =>
    obtain ⟨e, rest, rfl, rfl, rfl⟩ := List.map_eq_cons_iff.1 hscored
    have hblock := h.addBlock (List.cons_ne_nil e (rest.take (size - 1)))
    rw [List.map_cons, List.map_take] at hblock
    have hrest := ih hblock (rest.drop (size - 1)) List.map_drop
    rwa [List.append_assoc, List.cons_append, List.take_append_drop] at hrest

variable [IsStrictOrderedRing K]

/-- A stream yields exact attention over the keys that it has read. -/
theorem HasRead.finish (h : HasRead width s keys) :
    s.finish = ((meanRow width keys).map of, logSum (keys.map (·.1))) := by
  unfold Stream.finish meanRow
  cases h with
  | start =>
    simp [Stream.start, gatherValues, logSum]
  | relative m =>
    by_cases hkeys : keys = []
    · simp [Stream.relative, hkeys, mass, gatherValues, logSum]
    · have hscores : keys.map (·.1) ≠ [] := by simpa using hkeys
      have hpos := mass_pos hscores
      have hratio : ∀ a : K, a / exp m / (mass (keys.map (·.1)) / exp m) =
          a / mass (keys.map (·.1)) := fun a => div_div_div_cancel_right₀ (exp_pos m).ne' _ _
      have hlog := log_of (div_pos hpos (exp_pos m))
      simp [Stream.relative, logSum, hscores, div_pos hpos (exp_pos m), hlog, hratio,
        add_log_div m hpos]

end Stream

/-- A query attends to the keys that it sees, whatever the size of the blocks. -/
theorem attend_eq [IsStrictOrderedRing K] (blockSize : Nat) (c : K) (width : Nat) (query : List K)
    (keys : List (List K × List K)) :
    attend blockSize (of c) width (query.map of) (keys.map fun e => (e.1.map of, e.2.map of)) =
      ((meanRow width (keys.map fun e => (score c query e.1, e.2))).map of,
        logSum (keys.map fun e => score c query e.1)) := by
  have hscored : (keys.map fun e => (e.1.map of, e.2.map of)).map (fun (key, value) =>
      (of c * Scalar.dot (query.map of) key, value)) =
      (keys.map fun e => (score c query e.1, e.2)).map scoredKey := by
    simp [scoredKey, dot_of, score]
  unfold attend
  rw [hscored, (Stream.HasRead.start.addKeys blockSize _).finish, List.nil_append, List.map_map]
  rfl

end Flash

end TraceSubstitution
