import TraceSubstitution.Failure.Failure
import TraceSubstitution.Json.Value

/-!
# Journals

What happens is written to a journal, event by event: what is registered, how
each call is dispatched, which calls run. `Journaled σ` is a state with its
journal. The journal never influences what is done.
-/

namespace TraceSubstitution

/-- How much attention an event asks for. -/
inductive Level where
  | trace
  | debug
  | warn
deriving DecidableEq

/-- The name of a level. -/
def Level.text : Level → String
  | trace => "TRACE"
  | debug => "DEBUG"
  | warn => "WARN"

/-- Something that happened, with its particulars. -/
structure Event where
  /-- How much attention the event asks for. -/
  level : Level
  /-- What happened. -/
  message : String
  /-- The particulars, each with its name. -/
  fields : List (String × String)

/-- An event as a JSON value: its particulars stand beside level and message. -/
def Event.toJson (e : Event) : Json :=
  .object ((some "level", .ofText e.level.text) :: (some "message", .ofText e.message)
    :: e.fields.map fun (name, value) => (some name, .ofText value))

/-- Events in the order in which they happened. -/
abbrev Journal := List Event

/-- A state with its journal. -/
structure Journaled (σ : Type) where
  /-- The state. -/
  state : σ
  /-- What has happened so far. -/
  journal : Journal

namespace Journaled

variable {σ β : Type}

/-- Writes an event to the journal. -/
def note (e : Event) : Act (Journaled σ) Unit :=
  modify fun s => { s with journal := s.journal ++ [e] }

/-- The current state. -/
def current : Act (Journaled σ) σ := return (← get).state

/-- Replaces the state. -/
def put (s : σ) : Act (Journaled σ) Unit := modify ({ · with state := s })

end Journaled

end TraceSubstitution
