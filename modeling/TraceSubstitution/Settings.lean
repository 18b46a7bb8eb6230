import TraceSubstitution.Text.Blank

/-!
# Switches

A switch is set by a word. A few words turn it on, without regard to case, and
all others turn it off; a switch that is not set, or set to nothing, keeps its
default.
-/

namespace TraceSubstitution

namespace Settings

/-- The words that turn a switch on. -/
def trueWords : List String := ["1", "true", "yes", "on"]

/-- Whether a word turns a switch on. -/
def isTrue (word : String) : Bool := trueWords.any (sameWord (trim word))

/-- The position of a switch that is set to the given word, if it is set. -/
def switch (setting : Option String) (default : Bool) : Bool :=
  match setting with
  | none => default
  | some word => if trim word = "" then default else isTrue word

end Settings

end TraceSubstitution
