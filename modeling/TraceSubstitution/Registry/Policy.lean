import TraceSubstitution.Dict
import TraceSubstitution.Failure.Failure
import TraceSubstitution.Json.Value
import TraceSubstitution.Text.Blank
import TraceSubstitution.Text.Quoted

/-!
# Policies and overrides

A policy says which executors may replace the calls of an operator: all of them,
a single one, or none. It is written as a word. The reserved words are compared
without regard to case; any other bare word names the single executor, and
`force=` names it explicitly.

Overrides hold policies under names of operators. The name with its namespace
wins over the bare name.
-/

namespace TraceSubstitution

/-- Which executors may replace the calls of an operator. -/
inductive Policy where
  /-- All of them. -/
  | default
  /-- Only the one of the given name. -/
  | force (executor : String)
  /-- None. -/
  | fallback
deriving DecidableEq

namespace Policy

/-- The characters that a bare name of an executor must not have. -/
def isReserved (c : Char) : Bool := c = '=' || c = '(' || c = ')' || c = ' '

/-- The word in front of the name of a forced executor. -/
def forceWord : List Char := "force=".toList

/-- The text after `word`, if it starts with it. -/
def stripWord? : List Char → List Char → Option (List Char)
  | [], cs => some cs
  | w :: word, c :: cs => if w = c then stripWord? word cs else none
  | _ :: _, [] => none

/-- Reads a policy. -/
def parse (raw : String) : Except Failure Policy :=
  let word := trim raw
  if word = "" ∨ sameWord word "default" then .ok default
  else if sameWord word "fallback" then .ok fallback
  else
    match stripWord? forceWord word.toList with
    | some rest =>
      let executor := String.ofList (trimList rest)
      if executor = "" then .error (.ofCause (.policy .missingExecutor))
      else .ok (force executor)
    | none =>
      if word.toList.any isReserved then .error (.ofCause (.policy (.unrecognised word)))
      else .ok (force word)

/-- A policy as it is read back. -/
def text : Policy → String
  | default => "default"
  | force executor => "force=" ++ executor
  | fallback => "fallback"

/-- A policy as it is shown to a person. -/
def detail : Policy → String
  | default => "Default"
  | force executor => "Force \x7b executor: " ++ quoted executor ++ " \x7d"
  | fallback => "Fallback"

/-- A policy as a JSON value. -/
def toJson (p : Policy) : Json := .ofText p.text

/-- The policy that a JSON value stands for. -/
def ofJson? (j : Json) : Option Policy := do
  match parse (← j.text?) with
  | .ok p => some p
  | .error _ => none

end Policy

/-- Policies under names of operators. -/
abbrev Overrides := Dict Policy

namespace Overrides

/-- The policy under a name. -/
def policy (o : Overrides) (name : String) : Policy := (o.get? name).getD .default

/-- The policy of an operator: that of its qualified name, or else that of its bare name. -/
def policyFor (o : Overrides) (qualifiedName name : String) : Policy :=
  ((o.get? qualifiedName).orElse fun _ => o.get? name).getD .default

/-- Overrides as a JSON value. -/
def toJson (o : Overrides) : Json :=
  .object (o.toList.map fun (name, p) => (some name, p.toJson))

/-- The member of overrides that a member of a JSON object stands for. -/
def ofMember? (member : Option String × Json) : Option (String × Policy) := do
  return (← member.1, ← Policy.ofJson? member.2)

/-- The overrides that a JSON value stands for; of members with one name the last one counts. -/
def ofJson? : Json → Option Overrides
  | .object members => (members.mapM ofMember?).map Dict.ofList
  | _ => none

end Overrides

end TraceSubstitution
