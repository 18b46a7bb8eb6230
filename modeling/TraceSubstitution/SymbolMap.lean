import TraceSubstitution.Symbol

/-!
# Maps from symbols

Values under the numbers of symbols, at most one for each. The order of the
entries carries no meaning.
-/

namespace TraceSubstitution

universe u

/-- Values under the numbers of symbols. -/
structure SymbolMap (β : Type u) where
  /-- The entries, of which the first one under a number counts. -/
  entries : List (SymbolId × β)

namespace SymbolMap

variable {β : Type u}

/-- The map without values. -/
def empty : SymbolMap β := ⟨[]⟩

/-- The value under `id`, if there is one. -/
def get? (m : SymbolMap β) (id : SymbolId) : Option β :=
  (m.entries.find? (·.1 = id)).map (·.2)

/-- The map without a value under `id`. -/
def erase (m : SymbolMap β) (id : SymbolId) : SymbolMap β := ⟨m.entries.filter (·.1 ≠ id)⟩

/-- The map with `value` under `id` and all else unchanged. -/
def insert (m : SymbolMap β) (id : SymbolId) (value : β) : SymbolMap β :=
  ⟨(id, value) :: (m.erase id).entries⟩

/-- The map with the values of a list under the numbers beside them. -/
def insertAll (m : SymbolMap β) (ids : List SymbolId) (values : List β) : SymbolMap β :=
  (ids.zip values).foldl (fun m (id, value) => m.insert id value) m

/-- How many symbols have a value. -/
def size (m : SymbolMap β) : Nat := m.entries.length

@[simp] theorem get?_empty (id : SymbolId) : (empty : SymbolMap β).get? id = none := rfl

theorem get?_erase (m : SymbolMap β) (id other : SymbolId) :
    (m.erase id).get? other = if other = id then none else m.get? other := by
  obtain ⟨entries⟩ := m
  simp only [get?, erase]
  induction entries with
  | nil => simp
  | cons e entries ih => grind

theorem get?_insert (m : SymbolMap β) (id other : SymbolId) (value : β) :
    (m.insert id value).get? other = if other = id then some value else m.get? other := by
  have := get?_erase m id other
  simp only [get?, insert] at this ⊢
  grind

end SymbolMap

end TraceSubstitution
