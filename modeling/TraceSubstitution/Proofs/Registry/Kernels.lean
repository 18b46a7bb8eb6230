import TraceSubstitution.Proofs.Replacement.Dispatch

/-!
# Rules that call kernels

The simplest rules replace a call of an operator by a call of the same operator as
a kernel. `Registry.ofKernels` has one such rule for every operator of a list.
-/

namespace TraceSubstitution

variable {α : Type}

/-- The rule that calls its target as a kernel. -/
def Operator.asKernel (o : Operator α) (executor : String) : Rule α where
  target := o
  admits _ := .ok true
  execution args := Recipe.outputsOf (.kernel o) args.tensors args.attrs
  gradient := none
  priority := 0
  executor := executor
  sequence := 0

/-- The registry with one namespace, whose rules call operators as kernels. -/
def Registry.ofKernels (ops : List (Operator α)) : Registry α where
  namespaces := [⟨"kernels", "1", [], ops.map (·.asKernel "kernels")⟩]
  overrides := .empty
  highLevel := []
  nextOperator := ops.length

theorem Registry.rules_ofKernels (ops : List (Operator α)) :
    (ofKernels ops).rules = ops.map (·.asKernel "kernels") := by
  simp [rules, ofKernels]

theorem Replacer.typeDirected_ofKernels (ops : List (Operator α)) (options : ReplacerOptions) :
    TypeDirected ⟨.ofKernels ops, options⟩ := by
  intro rule hrule args args' _ _ _
  rw [Registry.rules_ofKernels] at hrule
  obtain ⟨o, -, rfl⟩ := List.mem_map.1 hrule
  rfl

end TraceSubstitution
