import TraceSubstitution.Text.Quoted
import TraceSubstitution.Trace.Recipe

/-!
# Substitution rules

A `Substitution` offers to replace the calls of an operator. Its checker looks at
the operands of a call and its static arguments and says whether the call may be
replaced; the execution transform replaces it in a forward program, and the
gradient transform, if there is one, in a program with gradients. When it is
registered it becomes a `Rule`, which knows its executor and its place there.
-/

namespace TraceSubstitution

/-- Says whether a call may be replaced. A checker reports no errors, but it may panic. -/
abbrev Checker : Type := Operands Symbol → Except Panic Bool

/-- An offer to replace the calls of an operator. -/
structure Substitution (α : Type) where
  /-- The operator whose calls are replaced. -/
  target : Operator α
  /-- Which calls are replaced. -/
  admits : Checker
  /-- What replaces a call in a forward program. -/
  execution : Transform α
  /-- What replaces a call in a program with gradients. -/
  gradient : Option (Transform α)
  /-- Higher priorities are tried first. -/
  priority : Int

/-- A registered substitution. -/
structure Rule (α : Type) extends Substitution α where
  /-- The namespace that registered the rule. -/
  executor : String
  /-- The number of rules that the namespace had before. -/
  sequence : Nat

/-- A rule as it is shown to a person. -/
def Rule.detail {α : Type} (r : Rule α) : String :=
  "SubstitutionRule \x7b target: " ++ quoted r.target.qualifiedName
    ++ ", executor: " ++ quoted r.executor
    ++ ", priority: " ++ toString r.priority
    ++ ", sequence: " ++ toString r.sequence
    ++ ", has_gradient: " ++ toString r.gradient.isSome ++ " \x7d"

end TraceSubstitution
