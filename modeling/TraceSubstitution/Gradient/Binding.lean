import TraceSubstitution.Core
import TraceSubstitution.SymbolMap

/-!
# Gradients bound to symbols

While the backward part of a program is built, every symbol is bound to the sum
of the contributions to its gradient so far. The first contribution is the sum
itself; each further one is added by a call of `core::add`. The old sum is taken
out before the call is recorded, so it is lost if the call is refused.
-/

namespace TraceSubstitution

/-- The gradient of every symbol that has one so far. -/
abbrev GradientBinding : Type := SymbolMap Symbol

namespace GradientBinding

variable {α : Type} [Scalar α]

/-- Records the sum of two contributions as a kernel call. -/
def sum (lhs rhs : Symbol) : Act (Tracer α) Symbol := do
  single (← Tracer.call (.kernel Core.add) [some lhs, some rhs] .empty)

/-- Adds a contribution to the gradient of a symbol. -/
def accumulate (primal : SymbolId) (contribution : Symbol) :
    Act (Tracer α × GradientBinding) Unit := fun (t, grads) =>
  match grads.get? primal with
  | none => (.ok (), t, grads.insert primal contribution)
  | some existing =>
    match (sum existing contribution).apply t with
    | (.ok total, t) => (.ok (), t, grads.insert primal total)
    | (.error e, t) => (.error e, t, grads.erase primal)

end GradientBinding

end TraceSubstitution
