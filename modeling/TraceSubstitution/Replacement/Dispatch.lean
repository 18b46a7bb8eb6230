import TraceSubstitution.Registry.Candidates
import TraceSubstitution.Replacement.Decision
import TraceSubstitution.Replacement.Report

/-!
# Dispatching calls

A high-level call is replaced by the first candidate whose checker admits it. A
decision that is remembered is used again without asking the checkers; a new one
is remembered. If a checker panics there is no decision.
-/

namespace TraceSubstitution

/-- What a replacer is allowed to do. -/
structure ReplacerOptions where
  /-- The executors that may replace calls; all of them if there is no list. -/
  executors : Option (List String)
  /-- How many decisions are remembered. -/
  cacheSize : Nat

/-- All executors, and 256 remembered decisions. -/
def ReplacerOptions.standard : ReplacerOptions := ⟨none, 256⟩

/-- Replaces calls of programs by what the executors of a registry offer. -/
structure Replacer (α : Type) where
  /-- The executors. -/
  registry : Registry α
  /-- What it is allowed to do. -/
  options : ReplacerOptions

namespace Replacer

variable {α : Type}

/-- The replacer with the given options; panics if no memory has room for its decisions. -/
def ofOptions (registry : Registry α) (options : ReplacerOptions) :
    Except Failure (Replacer α) :=
  if options.cacheSize ≤ Decisions.maxCapacity then .ok ⟨registry, options⟩
  else .error (.panic .tooLarge)

/-- The state of a replacer that has not been used. -/
def start (r : Replacer α) : Journaled (Decisions α) := ⟨.empty r.options.cacheSize, []⟩

/-- The first rule of a list that admits a call. -/
def firstAdmitting (args : Operands Symbol) : List (Rule α) → Except Panic (Option (Rule α))
  | [] => .ok none
  | rule :: rules => do
    if ← rule.admits args then return some rule else firstAdmitting args rules

/-- The rule that replaces a call, decided without regard to earlier decisions. -/
def chosenRule (r : Replacer α) (op : Operator α) (args : Operands Symbol) (gradient : Bool) :
    Except Panic (Option (Rule α)) :=
  firstAdmitting args (r.registry.candidateRules op r.options.executors gradient)

/-- How a call runs that is replaced by the given rule. -/
def outcomeOf : Option (Rule α) → Outcome
  | some rule => .substituted rule.executor
  | none => .fallback

/-- The event of a decision. -/
def decisionEvent (record : DispatchRecord) (gradient : Bool) : Event where
  level := .debug
  message := "dispatch decision"
  fields := [("node", toString record.node), ("op", record.op), ("state", record.outcome.text),
    ("cached", toString record.cached), ("gradient", toString gradient)]

open Journaled in
/-- Decides about a call that is not remembered. -/
def decideAnew (r : Replacer α) (op : Operator α) (args : Operands Symbol) (gradient : Bool) :
    Act (Journaled (Decisions α)) (Option (Rule α)) := do
  (r.registry.candidateEvents op).forM note
  Act.lift ((r.chosenRule op args gradient).mapError .panic)

open Journaled in
/-- Decides which rule replaces the call at a position, and records the decision. -/
def dispatch (r : Replacer α) (node : Nat) (op : Operator α) (args : Operands Symbol)
    (gradient : Bool) : Act (Journaled (Decisions α)) (DispatchRecord × Option (Rule α)) := do
  let key := DispatchKey.ofCall op.id gradient args
  let remembered := (← current).find? key
  let rule ← match remembered with
    | some rule => pure rule
    | none => r.decideAnew op args gradient
  put ((← current).remember key rule)
  let record : DispatchRecord :=
    ⟨node, op.qualifiedName, outcomeOf rule, remembered.isSome⟩
  note (decisionEvent record gradient)
  return (record, rule)

end Replacer

end TraceSubstitution
