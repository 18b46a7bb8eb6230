import TraceSubstitution.Registry.Registry

/-!
# Candidates

The candidates for a call are the rules that may replace it, in the order in
which they are tried: higher priorities first, then the namespaces in the order
of their registration, then the rules of a namespace in the order of theirs. A
policy narrows the choice, and so does a list of allowed executors; a program
with gradients needs rules that have a gradient transform.
-/

namespace TraceSubstitution

/-- A rule with the place of its namespace among all namespaces. -/
structure Candidate (α : Type) where
  /-- How many namespaces were registered before that of the rule. -/
  place : Nat
  /-- The rule. -/
  rule : Rule α

namespace Candidate

variable {α : Type}

/-- Whether the first candidate is tried before the second one. -/
def before (a b : Candidate α) : Bool :=
  b.rule.priority < a.rule.priority || b.rule.priority = a.rule.priority &&
    (a.place < b.place || a.place = b.place && a.rule.sequence < b.rule.sequence)

/-- Places a candidate in front of the first one that is not tried before it. -/
def insertOrdered (c : Candidate α) : List (Candidate α) → List (Candidate α)
  | [] => [c]
  | d :: rest => if d.before c then d :: insertOrdered c rest else c :: d :: rest

/-- Candidates in the order in which they are tried. -/
def ordered (cs : List (Candidate α)) : List (Candidate α) := cs.foldr insertOrdered []

theorem mem_insertOrdered {c d : Candidate α} {cs : List (Candidate α)} :
    d ∈ insertOrdered c cs ↔ d = c ∨ d ∈ cs := by
  induction cs with
  | nil => simp [insertOrdered]
  | cons e cs ih => grind [insertOrdered]

theorem mem_ordered {d : Candidate α} {cs : List (Candidate α)} :
    d ∈ ordered cs ↔ d ∈ cs := by
  induction cs with
  | nil => simp [ordered]
  | cons c cs ih =>
    rw [List.mem_cons, ← ih]
    exact mem_insertOrdered

end Candidate

namespace Registry

variable {α : Type}

/-- Whether a rule may replace calls of an operator at all. -/
def applies (target : Operator α) (gradient : Bool) (rule : Rule α) : Bool :=
  rule.target.id = target.id && (!gradient || rule.gradient.isSome)

/-- The rules for an operator of the namespaces that are asked. -/
def rulesFor (r : Registry α) (target : Operator α) (asked : String → Bool) (gradient : Bool) :
    List (Candidate α) :=
  (r.namespaces.zipIdx.filter fun (ns, _) => asked ns.name).flatMap fun (ns, place) =>
    (ns.rules.filter (applies target gradient)).map (⟨place, ·⟩)

/-- Whether a list of allowed executors allows the one of the given name. -/
def allows (executors : Option (List String)) (name : String) : Bool :=
  executors.all (·.contains name)

/-- The rules for the calls of an operator, in the order in which they are tried. -/
def candidateRules (r : Registry α) (target : Operator α) (executors : Option (List String))
    (gradient : Bool) : List (Rule α) :=
  let tried (asked : String → Bool) : List (Rule α) :=
    (Candidate.ordered (r.rulesFor target asked gradient)).map (·.rule)
  match r.policy target with
  | .fallback => []
  | .force executor =>
    if (r.namespace? executor).isNone then []
    else tried fun name => allows executors name && name = executor
  | .default => tried (allows executors)

/-- What there is to say before the candidates for the calls of an operator are tried: a policy
may name an executor that is not registered. -/
def candidateEvents (r : Registry α) (target : Operator α) : List Event :=
  match r.policy target with
  | .force executor =>
    if (r.namespace? executor).isNone then
      [{ level := .warn
         message := "forced executor is not registered; running the reference implementation"
         fields := [("op", target.name), ("executor", executor)] }]
    else []
  | _ => []

end Registry

end TraceSubstitution
