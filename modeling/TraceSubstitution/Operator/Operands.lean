import TraceSubstitution.Attr.Attrs

/-!
# Operands of a call

What an operator, a checker or a transform is given: the name of the operator
that is called, its operands, of which some may be absent, and its static
arguments. The operands are types, symbols or tensors.
-/

namespace TraceSubstitution

/-- A call as it is seen from inside the operator. -/
structure Operands (τ : Type) where
  /-- The name of the operator that is called. -/
  op : String
  /-- The operands, in order. -/
  tensors : List (Option τ)
  /-- The static arguments. -/
  attrs : Attrs

namespace Operands

variable {τ : Type}

/-- The operand at a position, if it is there. -/
def optional (args : Operands τ) (index : Nat) : Option τ := (args.tensors[index]?).join

/-- The operand at a position. -/
def tensor (args : Operands τ) (index : Nat) : Except Failure τ :=
  orError (.argument (.absentOperand args.op index)) (args.optional index)

theorem tensor_eq_ok_iff {args : Operands τ} {index : Nat} {x : τ} :
    args.tensor index = .ok x ↔ args.optional index = some x := orError_eq_ok_iff

end Operands

end TraceSubstitution
