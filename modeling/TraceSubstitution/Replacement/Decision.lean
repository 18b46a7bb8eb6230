import TraceSubstitution.Registry.Rule

/-!
# Remembered decisions

Which rule replaces a call depends on the operator, the mode, the types of the
operands and the static arguments only, so a decision can be remembered under
these. Numbers are compared by their bits: the two zeros are different arguments.

`Decisions` keeps the decisions used last, most recent first. A capacity of zero
remembers nothing.
-/

namespace TraceSubstitution

/-- A static argument as it is compared. -/
inductive AttrKey where
  | bool (b : Bool)
  | int (i : Int64)
  | float (bits : UInt64)
  | unset
deriving DecidableEq

/-- What a decision depends on. -/
structure DispatchKey where
  /-- The operator that is called. -/
  op : OperatorId
  /-- Whether the program is to have gradients. -/
  gradient : Bool
  /-- The types of the operands. -/
  operands : List (Option TensorType)
  /-- The static arguments. -/
  attrs : List (String × AttrKey)
deriving DecidableEq

/-- The form in which a static argument is compared. -/
def AttrKey.ofValue : AttrValue → AttrKey
  | .bool b => bool b
  | .int i => int i
  | .float x => float x.toBits
  | .unset => unset

/-- What the decision about a call depends on. -/
def DispatchKey.ofCall (op : OperatorId) (gradient : Bool) (args : Operands Symbol) :
    DispatchKey where
  op := op
  gradient := gradient
  operands := args.tensors.map (·.map Symbol.type)
  attrs := args.attrs.toList.map fun (name, v) => (name, AttrKey.ofValue v)

/-- The decisions used last: for each key the rule that replaces the call, if any does. -/
structure Decisions (α : Type) where
  /-- How many decisions are remembered. -/
  capacity : Nat
  /-- The decisions, the one used last in front. -/
  entries : List (DispatchKey × Option (Rule α))

namespace Decisions

variable {α : Type}

/-- The largest capacity that memory has room for. A table has a power of two of places and uses
seven in eight of them; a place takes seventeen bytes, and the table fewer than `2 ^ 63`. So `2 ^ 58`
places are the most. -/
def maxCapacity : Nat := 0x380000000000000

/-- Nothing is remembered yet. -/
def empty (capacity : Nat) : Decisions α := ⟨capacity, []⟩

/-- The decision under a key, if it is remembered. -/
def find? (d : Decisions α) (key : DispatchKey) : Option (Option (Rule α)) :=
  (d.entries.find? (·.1 = key)).map (·.2)

/-- Remembers a decision as the one used last; the one not used for longest may be dropped. -/
def remember (d : Decisions α) (key : DispatchKey) (decision : Option (Rule α)) : Decisions α :=
  { d with entries := ((key, decision) :: d.entries.filter (·.1 ≠ key)).take d.capacity }

theorem mem_of_find? {d : Decisions α} {key : DispatchKey} {decision : Option (Rule α)}
    (h : d.find? key = some decision) : (key, decision) ∈ d.entries := by
  unfold find? at h
  obtain ⟨e, he, rfl⟩ := Option.map_eq_some_iff.1 h
  have hkey : e.1 = key := by simpa using List.find?_some he
  exact hkey ▸ List.mem_of_find?_eq_some he

theorem mem_remember {d : Decisions α} {key : DispatchKey} {decision : Option (Rule α)}
    {e : DispatchKey × Option (Rule α)} (h : e ∈ (d.remember key decision).entries) :
    e = (key, decision) ∨ e ∈ d.entries := by
  have := List.mem_of_mem_take h
  grind

end Decisions

end TraceSubstitution
