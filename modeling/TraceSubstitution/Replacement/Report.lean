import TraceSubstitution.Journal

/-!
# Reports

A report says for every high-level call of the source which executor replaced it,
or that none did, and whether this had been decided before.
-/

namespace TraceSubstitution

/-- How a high-level call runs. -/
inductive Outcome where
  /-- An executor replaced it. -/
  | substituted (executor : String)
  /-- Its reference implementation runs. -/
  | fallback
deriving DecidableEq

/-- An outcome as it is written in journals. -/
def Outcome.text : Outcome → String
  | substituted executor => "substituted(" ++ executor ++ ")"
  | fallback => "fallback"

/-- Whether an executor replaced the call. -/
def Outcome.isSubstituted : Outcome → Bool
  | substituted _ => true
  | fallback => false

/-- What became of one call of the source. -/
structure DispatchRecord where
  /-- The position of the call in the source. -/
  node : Nat
  /-- The name of the operator. -/
  op : String
  /-- How the call runs. -/
  outcome : Outcome
  /-- Whether the decision was remembered. -/
  cached : Bool

/-- What became of the high-level calls of the source, in order. -/
abbrev Report := List DispatchRecord

namespace Report

/-- How many calls were replaced. -/
def substituted (r : Report) : Nat := r.countP (·.outcome.isSubstituted)

/-- How many calls run their reference implementation. -/
def fallbacks (r : Report) : Nat := r.countP (!·.outcome.isSubstituted)

/-- The executor that replaced the call at a position, if one did. -/
def executorFor? (r : Report) (node : Nat) : Option String :=
  (r.find? (·.node = node)).bind fun record =>
    match record.outcome with
    | .substituted executor => some executor
    | .fallback => none

/-- The event of a finished program. -/
def finished (r : Report) : Event where
  level := .debug
  message := "rewrite finished"
  fields := [("nodes", toString r.length), ("substituted", toString r.substituted),
    ("fallbacks", toString r.fallbacks)]

theorem substituted_add_fallbacks (r : Report) :
    r.substituted + r.fallbacks = r.length := by
  induction r with
  | nil => rfl
  | cons record r ih =>
    simp only [substituted, fallbacks, List.countP_cons, List.length_cons] at ih ⊢
    cases record.outcome.isSubstituted <;> simp <;> omega

end Report

end TraceSubstitution
