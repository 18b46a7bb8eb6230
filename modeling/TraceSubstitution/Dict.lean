/-!
# Dictionaries

A `Dict` holds values under names, in the order of the names. Since the order is
part of the type, two dictionaries with the same values under the same names are
equal: `Dict.ext`.
-/

namespace TraceSubstitution

/-- The value under `name` in a list of values under names. -/
def lookupEntry {β : Type} (name : String) : List (String × β) → Option β
  | [] => none
  | (n, v) :: entries => if name = n then some v else lookupEntry name entries

@[simp] theorem lookupEntry_nil {β : Type} (name : String) :
    lookupEntry name ([] : List (String × β)) = none := rfl

theorem lookupEntry_cons {β : Type} (name : String) (e : String × β)
    (entries : List (String × β)) :
    lookupEntry name (e :: entries) =
      if name = e.1 then some e.2 else lookupEntry name entries := rfl

/-- Places `value` under `name` in a list that is ordered by name. -/
def insertEntry {β : Type} (name : String) (value : β) :
    List (String × β) → List (String × β)
  | [] => [(name, value)]
  | (n, v) :: entries =>
    if name < n then (name, value) :: (n, v) :: entries
    else if name = n then (name, value) :: entries
    else (n, v) :: insertEntry name value entries

theorem mem_insertEntry {β : Type} {name : String} {value : β} {entries : List (String × β)}
    {e : String × β} (h : e ∈ insertEntry name value entries) :
    e = (name, value) ∨ e ∈ entries := by
  induction entries with
  | nil => simpa [insertEntry] using h
  | cons x entries ih =>
    obtain ⟨n, v⟩ := x
    grind [insertEntry]

theorem pairwise_insertEntry {β : Type} {name : String} {value : β}
    {entries : List (String × β)} (h : entries.Pairwise (·.1 < ·.1)) :
    (insertEntry name value entries).Pairwise (·.1 < ·.1) := by
  induction entries with
  | nil => simp [insertEntry]
  | cons x entries ih =>
    obtain ⟨n, v⟩ := x
    obtain ⟨hn, hrest⟩ := List.pairwise_cons.1 h
    unfold insertEntry
    split
    · next hlt =>
      refine List.pairwise_cons.2 ⟨?_, h⟩
      intro e he
      rcases List.mem_cons.1 he with rfl | he
      · exact hlt
      · exact String.lt_trans hlt (hn e he)
    · next hlt =>
      split
      · next heq =>
        subst heq
        exact List.pairwise_cons.2 ⟨hn, hrest⟩
      · next hne =>
        refine List.pairwise_cons.2 ⟨?_, ih hrest⟩
        intro e he
        rcases mem_insertEntry he with rfl | he
        · exact Std.lt_of_le_of_ne (Std.not_lt.1 hlt) (Ne.symm hne)
        · exact hn e he

/-- Values under names, in the order of the names. -/
structure Dict (β : Type) where
  /-- The names with their values. -/
  entries : List (String × β)
  /-- The names are in increasing order. -/
  sorted : entries.Pairwise (·.1 < ·.1)

namespace Dict

variable {β : Type}

/-- The dictionary without values. -/
def empty : Dict β := ⟨[], List.Pairwise.nil⟩

instance : Inhabited (Dict β) := ⟨empty⟩

/-- The value under `name`, if there is one. -/
def get? (d : Dict β) (name : String) : Option β := lookupEntry name d.entries

/-- The dictionary with `value` under `name` and all else unchanged. -/
def insert (d : Dict β) (name : String) (value : β) : Dict β :=
  ⟨insertEntry name value d.entries, pairwise_insertEntry d.sorted⟩

/-- The dictionary of a list of values under names, of which the last one under a name counts. -/
def ofList (entries : List (String × β)) : Dict β :=
  entries.foldl (fun d (name, value) => d.insert name value) empty

/-- The names with their values, in order. -/
def toList (d : Dict β) : List (String × β) := d.entries

/-- Whether there are no values. -/
def isEmpty (d : Dict β) : Bool := d.entries.isEmpty

@[simp] theorem get?_empty (name : String) : (empty : Dict β).get? name = none := rfl

theorem get?_insert (d : Dict β) (name other : String) (value : β) :
    (d.insert name value).get? other = if other = name then some value else d.get? other := by
  obtain ⟨entries, sorted⟩ := d
  simp only [get?, insert]
  induction entries with
  | nil =>
    simp [insertEntry, lookupEntry_cons]
  | cons x entries ih =>
    obtain ⟨n, v⟩ := x
    have ih := ih (List.pairwise_cons.1 sorted).2
    unfold insertEntry
    by_cases h : other = name <;> by_cases hn : other = n <;>
      grind [lookupEntry_cons, String.lt_irrefl]

theorem lookupEntry_eq_none {name : String} {entries : List (String × β)}
    (h : ∀ e ∈ entries, name < e.1) : lookupEntry name entries = none := by
  induction entries with
  | nil => rfl
  | cons e entries ih =>
    have hlt := h e (by simp)
    have hne : name ≠ e.1 := fun heq => String.lt_irrefl _ (heq ▸ hlt)
    have := ih fun e he => h e (by simp [he])
    rw [lookupEntry_cons, if_neg hne, this]

theorem eq_of_lookupEntry_eq {a b : List (String × β)} (ha : a.Pairwise (·.1 < ·.1))
    (hb : b.Pairwise (·.1 < ·.1)) (h : ∀ name, lookupEntry name a = lookupEntry name b) : a = b := by
  induction a generalizing b with
  | nil =>
    cases b with
    | nil => rfl
    | cons y b => simpa [lookupEntry_cons] using h y.1
  | cons x a ih =>
    cases b with
    | nil => simpa [lookupEntry_cons] using h x.1
    | cons y b =>
      obtain ⟨hx, ha⟩ := List.pairwise_cons.1 ha
      obtain ⟨hy, hb⟩ := List.pairwise_cons.1 hb
      have hxy : x.1 = y.1 := by
        refine Std.le_antisymm (Std.not_lt.1 fun hlt => ?_) (Std.not_lt.1 fun hlt => ?_)
        · have hnone : lookupEntry y.1 (x :: a) = none := lookupEntry_eq_none fun e he => by
            rcases List.mem_cons.1 he with rfl | he
            · exact hlt
            · exact String.lt_trans hlt (hx e he)
          simpa [hnone, lookupEntry_cons] using h y.1
        · have hnone : lookupEntry x.1 (y :: b) = none := lookupEntry_eq_none fun e he => by
            rcases List.mem_cons.1 he with rfl | he
            · exact hlt
            · exact String.lt_trans hlt (hy e he)
          simpa [hnone, lookupEntry_cons] using h x.1
      have hval : x.2 = y.2 := by simpa [lookupEntry_cons, hxy] using h x.1
      have htail : ∀ name, lookupEntry name a = lookupEntry name b := by
        intro name
        by_cases hn : name = x.1
        · subst hn
          rw [lookupEntry_eq_none hx, lookupEntry_eq_none (hxy ▸ hy)]
        · simpa [lookupEntry_cons, hn, hxy ▸ hn] using h name
      rw [ih ha hb htail, show x = y from Prod.ext hxy hval]

@[ext] theorem ext {a b : Dict β} (h : ∀ name, a.get? name = b.get? name) : a = b := by
  obtain ⟨a, ha⟩ := a
  obtain ⟨b, hb⟩ := b
  congr
  exact eq_of_lookupEntry_eq ha hb h

end Dict

end TraceSubstitution
