import TraceSubstitution.Trace.Trace

/-!
# Backward captures

While the gradient of a node is being described, a capture is open. It hands out
placeholders for gradients that are not known yet, and it takes over every call
that depends on one of them: the placeholders are tainted, and so are the outputs
of a call with a tainted operand. What is left at the end is a `Fragment`: the
placeholders with the symbols whose gradients they stand for, and the diverted
calls and contributions in order.
-/

namespace TraceSubstitution

/-- A part of a backward computation. -/
inductive BackwardStep (α : Type) where
  /-- A call that depends on a gradient. -/
  | node (n : Node α)
  /-- Adds a contribution to the gradient of a symbol. -/
  | accumulate (target contribution : SymbolId)

/-- A backward computation that waits for the gradients it starts from. -/
structure Fragment (α : Type) where
  /-- The placeholders, each with the symbol whose gradient it stands for. -/
  placeholders : List (SymbolId × SymbolId)
  /-- What is to be done, in order. -/
  steps : List (BackwardStep α)

/-- An open capture. -/
structure Capture (α : Type) extends Fragment α where
  /-- The symbols that depend on a placeholder. -/
  tainted : List SymbolId

namespace Fragment

variable {α : Type}

/-- Whether there is nothing to be done and nothing to wait for. -/
def isEmpty (f : Fragment α) : Bool := f.placeholders.isEmpty && f.steps.isEmpty

end Fragment

namespace Capture

variable {α : Type}

/-- A capture that has just been opened. -/
def empty : Capture α := ⟨⟨[], []⟩, []⟩

/-- Whether a call depends on a placeholder. -/
def dependsOnGradient (c : Capture α) (n : Node α) : Bool :=
  n.inputs.any fun
    | some id => c.tainted.contains id
    | none => false

/-- The placeholder for the gradient of a symbol, if there is one. -/
def placeholderFor? (c : Capture α) (primal : SymbolId) : Option SymbolId :=
  (c.placeholders.find? (·.2 = primal)).map (·.1)

/-- Hands out a placeholder for the gradient of a symbol. -/
def addPlaceholder (c : Capture α) (placeholder primal : SymbolId) : Capture α :=
  { c with
    placeholders := c.placeholders ++ [(placeholder, primal)]
    tainted := placeholder :: c.tainted }

/-- Takes over a call. -/
def divert (c : Capture α) (n : Node α) : Capture α :=
  { c with steps := c.steps ++ [.node n], tainted := n.outputs ++ c.tainted }

/-- Notes a contribution to the gradient of a symbol. -/
def accumulate (c : Capture α) (target contribution : SymbolId) : Capture α :=
  { c with steps := c.steps ++ [.accumulate target contribution] }

end Capture

end TraceSubstitution
