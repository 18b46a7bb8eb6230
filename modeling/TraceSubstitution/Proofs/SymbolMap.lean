import Mathlib.Data.List.Forall2
import Mathlib.Data.Option.Basic
import TraceSubstitution.SymbolMap

/-!
# Maps from symbols, compared

`Within` says that one map holds all that another one holds, and `Related` that
what two maps hold under the same number is related. Both survive when the maps
grow in the same way.

A map is `Distinct` if it has one entry for each number, as every map has that is
made from the empty one. Erasing a number from it takes away exactly one entry.
-/

namespace TraceSubstitution

namespace SymbolMap

variable {β : Type*}

/-- Values that are read, and may be absent, are told apart by what is read. -/
theorem reads_injective : Function.Injective fun xs : List (Option β) => xs.map (·.map some) :=
  List.map_injective_iff.2 (Option.map_injective (Option.some_injective β))

/-- All values of the first map are values of the second one. -/
def Within (m m' : SymbolMap β) : Prop := ∀ id x, m.get? id = some x → m'.get? id = some x

theorem Within.insert {m m' : SymbolMap β} (h : m.Within m') (id : SymbolId) (x : β) :
    (m.insert id x).Within (m'.insert id x) := by
  intro other y hy
  rw [get?_insert] at hy ⊢
  split at hy
  · next heq => rwa [if_pos heq]
  · next hne =>
    rw [if_neg hne]
    exact h other y hy

theorem Within.insertAll {m m' : SymbolMap β} (h : m.Within m') :
    ∀ (ids : List SymbolId) (xs : List β), (m.insertAll ids xs).Within (m'.insertAll ids xs)
  | [], _ => h
  | _ :: _, [] => h
  | id :: ids, x :: xs => (h.insert id x).insertAll ids xs

/-- No two entries are under the same number. -/
def Distinct (m : SymbolMap β) : Prop := (m.entries.map (·.1)).Nodup

theorem distinct_empty : (empty : SymbolMap β).Distinct := List.nodup_nil

theorem Distinct.erase {m : SymbolMap β} (h : m.Distinct) (id : SymbolId) : (m.erase id).Distinct :=
  h.sublist (List.filter_sublist.map _)

theorem Distinct.insert {m : SymbolMap β} (h : m.Distinct) (id : SymbolId) (x : β) :
    (m.insert id x).Distinct := by
  refine List.nodup_cons.2 ⟨?_, h.erase id⟩
  rintro hmem
  obtain ⟨e, he, heq⟩ := List.mem_map.1 hmem
  exact of_decide_eq_true (List.mem_filter.1 he).2 heq

/-- A value that is erased is the only one that goes. -/
theorem Distinct.size_erase {m : SymbolMap β} (h : m.Distinct) {id : SymbolId} {x : β}
    (hget : m.get? id = some x) : (m.erase id).size + 1 = m.size := by
  obtain ⟨entries⟩ := m
  unfold Distinct at h
  unfold size SymbolMap.erase
  simp only at h ⊢
  induction entries with
  | nil => exact nomatch hget
  | cons e entries ih =>
    obtain ⟨hfresh, hnodup⟩ := List.nodup_cons.1 h
    by_cases hid : e.1 = id
    · have hrest : entries.filter (·.1 ≠ id) = entries := by
        rw [List.filter_eq_self]
        intro e' he'
        refine decide_eq_true fun heq => hfresh ?_
        exact List.mem_map.2 ⟨e', he', heq.trans hid.symm⟩
      rw [List.filter_cons_of_neg (by simpa using hid), hrest, List.length_cons]
    · have hget : (⟨entries⟩ : SymbolMap β).get? id = some x := by
        unfold get? at hget
        rwa [List.find?_cons_of_neg (by simpa using hid)] at hget
      rw [List.filter_cons_of_pos (by simpa using hid), List.length_cons, List.length_cons,
        ih hnodup hget]

@[simp] theorem insertAll_nil (m : SymbolMap β) (xs : List β) : m.insertAll [] xs = m := rfl

@[simp] theorem insertAll_cons (m : SymbolMap β) (id : SymbolId) (ids : List SymbolId) (x : β)
    (xs : List β) : m.insertAll (id :: ids) (x :: xs) = (m.insert id x).insertAll ids xs := rfl

theorem get?_insertAll_of_notMem {ids : List SymbolId} {other : SymbolId} (h : other ∉ ids)
    (m : SymbolMap β) (xs : List β) : (m.insertAll ids xs).get? other = m.get? other := by
  induction ids generalizing m xs with
  | nil => rfl
  | cons id ids ih =>
    obtain ⟨hne, hrest⟩ := List.ne_and_not_mem_of_not_mem_cons h
    cases xs with
    | nil => rfl
    | cons x xs => rw [insertAll_cons, ih hrest, get?_insert, if_neg hne]

/-- Distinct numbers get the values beside them. -/
theorem map_get?_insertAll {ids : List SymbolId} {xs : List β} (hnodup : ids.Nodup)
    (hlength : ids.length = xs.length) (m : SymbolMap β) :
    ids.map (m.insertAll ids xs).get? = xs.map some := by
  induction ids generalizing m xs with
  | nil =>
    obtain rfl := List.eq_nil_of_length_eq_zero hlength.symm
    rfl
  | cons id ids ih =>
    obtain ⟨hnotMem, hrest⟩ := List.nodup_cons.1 hnodup
    cases xs with
    | nil => exact nomatch hlength
    | cons x xs =>
      rw [insertAll_cons, List.map_cons, List.map_cons, ih hrest (Nat.succ.inj hlength),
        get?_insertAll_of_notMem hnotMem, get?_insert, if_pos rfl]

/-- The part of a map under the given numbers. -/
def restrict (m : SymbolMap β) (ids : List SymbolId) : SymbolMap β :=
  ⟨m.entries.filter (·.1 ∈ ids)⟩

theorem get?_restrict (m : SymbolMap β) (ids : List SymbolId) (id : SymbolId) :
    (m.restrict ids).get? id = if id ∈ ids then m.get? id else none := by
  obtain ⟨entries⟩ := m
  simp only [get?, restrict]
  induction entries with
  | nil => simp
  | cons e entries ih =>
    by_cases hmem : e.1 ∈ ids
    · rw [List.filter_cons_of_pos (by simpa using hmem)]
      by_cases heq : e.1 = id
      · subst heq
        simp [hmem]
      · simp only [List.find?_cons, heq, decide_false, ih]
    · rw [List.filter_cons_of_neg (by simpa using hmem), ih]
      by_cases heq : e.1 = id
      · subst heq
        simp [hmem]
      · simp only [List.find?_cons, heq, decide_false]

theorem restrict_within (m : SymbolMap β) (ids : List SymbolId) : (m.restrict ids).Within m := by
  intro id x hx
  rw [get?_restrict] at hx
  split at hx
  · exact hx
  · exact nomatch hx

/-- What is stored under the numbers of a list fits them, and so does what was there before. -/
theorem fits_insertAll {P : SymbolId → β → Prop} {ids : List SymbolId} {xs : List β}
    (h : List.Forall₂ P ids xs) {m : SymbolMap β} (hm : ∀ id x, m.get? id = some x → P id x) :
    ∀ id x, (m.insertAll ids xs).get? id = some x → P id x := by
  induction h generalizing m with
  | nil => exact hm
  | @cons first y ids xs hfirst _ ih =>
    refine ih fun id x hx => ?_
    rw [get?_insert] at hx
    split at hx
    · next heq => exact heq ▸ Option.some.inj hx ▸ hfirst
    · exact hm id x hx

section Measured

variable {γ : Type*} {m : SymbolMap β} {f : SymbolId → Option γ} {g : β → γ}

/-- What is known of everything in a map is known of what is read from it. -/
theorem map_of_reads (h : ∀ id x, m.get? id = some x → f id = some (g x))
    {ids : List (Option SymbolId)} {xs : List (Option β)}
    (hxs : ids.map (·.map m.get?) = xs.map (·.map some)) :
    ids.map (·.map f) = (xs.map (·.map g)).map (·.map some) := by
  rw [← List.forall₂_eq_eq_eq, List.forall₂_map_left_iff, List.forall₂_map_right_iff] at hxs
  rw [List.map_map, ← List.forall₂_eq_eq_eq, List.forall₂_map_left_iff, List.forall₂_map_right_iff]
  refine hxs.imp fun {x y} hxy => ?_
  cases x with
  | none =>
    obtain rfl : y = none := by simpa using hxy.symm
    rfl
  | some id =>
    obtain ⟨b, rfl, hb⟩ := Option.map_eq_some_iff.1 hxy.symm
    exact congrArg some (h id b hb.symm)

theorem map_of_values (h : ∀ id x, m.get? id = some x → f id = some (g x)) {ids : List SymbolId}
    {xs : List β} (hxs : ids.map m.get? = xs.map some) : ids.map f = (xs.map g).map some := by
  rw [← List.forall₂_eq_eq_eq, List.forall₂_map_left_iff, List.forall₂_map_right_iff] at hxs
  rw [List.map_map, ← List.forall₂_eq_eq_eq, List.forall₂_map_left_iff, List.forall₂_map_right_iff]
  exact hxs.imp fun {id x} hx => h id x hx

end Measured

/-- What the first map holds is related to what the second one holds under the same number. -/
def Related {γ : Type*} (R : β → γ → Prop) (m : SymbolMap β) (m' : SymbolMap γ) : Prop :=
  ∀ id b, m.get? id = some b → ∃ c, m'.get? id = some c ∧ R b c

section Related

variable {γ : Type*} {R S : β → γ → Prop} {m : SymbolMap β} {m' : SymbolMap γ}

theorem related_empty : Related R (empty : SymbolMap β) (empty : SymbolMap γ) :=
  fun _ _ h => nomatch h

theorem Related.mono (h : Related R m m') (hRS : ∀ b c, R b c → S b c) : Related S m m' := by
  intro id b hb
  obtain ⟨c, hc, hR⟩ := h id b hb
  exact ⟨c, hc, hRS b c hR⟩

theorem Related.insert (h : Related R m m') (id : SymbolId) {b : β} {c : γ} (hR : R b c) :
    Related R (m.insert id b) (m'.insert id c) := by
  intro other b' hb'
  rw [get?_insert] at hb' ⊢
  split at hb'
  · next heq =>
    obtain rfl := Option.some.inj hb'
    exact ⟨c, if_pos heq, hR⟩
  · next hne =>
    rw [if_neg hne]
    exact h other b' hb'

theorem Related.insertAll (h : Related R m m') {bs : List β} {cs : List γ}
    (hR : List.Forall₂ R bs cs) (ids : List SymbolId) :
    Related R (m.insertAll ids bs) (m'.insertAll ids cs) := by
  induction hR generalizing m m' ids with
  | nil =>
    cases ids with
    | nil => exact h
    | cons id ids => exact h
  | cons hhead _ ih =>
    cases ids with
    | nil => exact h
    | cons id ids => exact ih (h.insert id hhead) ids

/-- What is read from related maps is related. -/
theorem Related.reads (h : Related R m m') :
    ∀ {ids : List (Option SymbolId)} {bs : List (Option β)} {cs : List (Option γ)},
      ids.map (·.map m.get?) = bs.map (·.map some) →
        ids.map (·.map m'.get?) = cs.map (·.map some) → List.Forall₂ (Option.Rel R) bs cs
  | [], [], [], _, _ => .nil
  | id :: ids, b :: bs, c :: cs, hbs, hcs => by
    obtain ⟨hb, hbs⟩ := List.cons_eq_cons.1 hbs
    obtain ⟨hc, hcs⟩ := List.cons_eq_cons.1 hcs
    refine .cons ?_ (h.reads hbs hcs)
    cases id with
    | none =>
      cases b with
      | some b => exact nomatch hb
      | none =>
        cases c with
        | some c => exact nomatch hc
        | none => exact .none
    | some id =>
      cases b with
      | none => exact nomatch hb
      | some b =>
        cases c with
        | none => exact nomatch hc
        | some c =>
          obtain ⟨c', hc', hR⟩ := h id b (Option.some.inj hb)
          obtain rfl : c' = c := Option.some.inj (hc'.symm.trans (Option.some.inj hc))
          exact .some hR
  | [], _ :: _, _, hbs, _ => nomatch hbs
  | _ :: _, [], _, hbs, _ => nomatch hbs
  | [], _, _ :: _, _, hcs => nomatch hcs
  | _ :: _, _, [], _, hcs => nomatch hcs

theorem map_some_get? {m : SymbolMap β} {ids : List SymbolId} {bs : List β}
    (h : ids.map m.get? = bs.map some) :
    (ids.map some).map (·.map m.get?) = (bs.map some).map (·.map some) := by
  have hmap := congrArg (List.map some) h
  rw [List.map_map, List.map_map] at hmap ⊢
  exact hmap

/-- What is read from related maps is related, when no operand is absent. -/
theorem Related.values (h : Related R m m') {ids : List SymbolId} {bs : List β} {cs : List γ}
    (hbs : ids.map m.get? = bs.map some) (hcs : ids.map m'.get? = cs.map some) :
    List.Forall₂ R bs cs := by
  have hreads := h.reads (map_some_get? hbs) (map_some_get? hcs)
  rw [List.forall₂_map_left_iff, List.forall₂_map_right_iff] at hreads
  refine hreads.imp ?_
  rintro b c ⟨hR⟩
  exact hR

end Related

end SymbolMap

end TraceSubstitution
