import TraceSubstitution.Proofs.Attention.Contract
import TraceSubstitution.Proofs.Core
import TraceSubstitution.Proofs.Flash.Contract

/-!
# The built-in operators keep their promises

The operators of the initial registry and those of the fused executor are listed in
`builtins`, each with the buffers that it works in. What type inference of any of
them accepts can be computed, however the operands lie in memory, and the outputs
have the inferred types; so no verified call of a built-in operator breaks its
contract (`Builtin.executeVerified_of_infer`).
-/

namespace TraceSubstitution

/-- A built-in operator, and the sizes of the buffers that a call works in besides its operands
and outputs. -/
structure Builtin (α : Type) where
  /-- The operator. -/
  operator : Operator α
  /-- The sizes of the buffers, from the types of the operands. -/
  scratch : List (Option TensorType) → List Nat

variable {α : Type} [Scalar α]

/-- The built-in operators; the fused ones run the reference kernel, which is available. -/
def builtins (config : FlashConfig) (blockSize : Nat) (probe : Bool) : List (Builtin α) :=
  [⟨Core.add, fun _ => []⟩, ⟨Core.zerosLike, fun _ => []⟩,
    ⟨Attention.operator, Attention.operatorScratch⟩,
    ⟨Attention.backwardOperator, Attention.backwardScratch⟩,
    ⟨Flash.forwardOperator (Flash.reference config blockSize probe) true,
      Flash.forwardScratch blockSize⟩,
    ⟨Flash.backwardOperator (Flash.reference config blockSize probe) true,
      Flash.backwardScratch config⟩]

namespace Builtin

variable {config : FlashConfig} {blockSize : Nat} {probe : Bool} {b : Builtin α}

/- The built-in operators are those of the namespaces that are registered. -/
example : (builtins config blockSize probe).map Builtin.operator =
    (Flash.registered (α := α) (Flash.reference config blockSize probe) config
      true).namespaces.flatMap (·.operators) := rfl

theorem fulfils_of_mem (hb : b ∈ builtins config blockSize probe) :
    b.operator.Fulfils b.scratch := by
  simp only [builtins, List.mem_cons, List.not_mem_nil, or_false] at hb
  rcases hb with rfl | rfl | rfl | rfl | rfl | rfl
  · exact Core.fulfils_add
  · exact Core.fulfils_zerosLike
  · exact Attention.fulfils_operator
  · exact Attention.fulfils_backwardOperator
  · exact Flash.fulfils_forwardOperator config blockSize probe
  · exact Flash.fulfils_backwardOperator config blockSize probe

/-- Type inference of a built-in operator never panics on operands that have an axis. What it
accepts can be computed from any tensors of these types, whether they lie in one piece or not, if
the buffers and the outputs can exist: the outputs have the inferred types, in number and one by
one, and pass the check of a verified call. -/
theorem executeVerified_of_infer (hb : b ∈ builtins config blockSize probe)
    {types : List (Option TensorType)} (htypes : ∀ type, some type ∈ types → type.dims ≠ [])
    (attrs : Attrs) :
    (∀ p, b.operator.infer types attrs ≠ .error (.panic p)) ∧
      ∀ outputs, b.operator.infer types attrs = .ok outputs →
        Available (b.scratch types) outputs →
          ∀ tensors : List (Option (Tensor α)), tensors.map (·.map Tensor.type) = types →
            ∃ results, b.operator.execute tensors attrs = .ok results ∧
              results.map Tensor.type = outputs ∧
                b.operator.executeVerified tensors attrs = .ok results := by
  have hfulfils := fulfils_of_mem hb
  refine ⟨(hfulfils.reports types attrs htypes).ne_panic, ?_⟩
  rintro outputs hinfer havailable tensors rfl
  exact hfulfils.executeVerified_eq_ok hinfer havailable

/-- Single precision on the host, with the given axes. -/
def hostType (dims : List Nat) : TensorType := ⟨⟨dims⟩, .f32, .host⟩

/-- Queries of width three, cut out of rows of five elements. -/
def scatteredQueries : Tensor Float32 where
  type := hostType [1, 2, 2, 3]
  strides := rowMajor [1, 2, 2, 5]
  offset := 1
  storage := Array.replicate 20 0
  window :=
    have hrange : 1 + 3 ≤ [1, 2, 2, 5].getD 3 0 := by decide
    (isWindow_dense [1, 2, 2, 5]).narrow hrange

/-- The gradients of two heads with more keys than queries, and values narrower than the keys: the
queries do not lie in one piece, and rows are padded to eight elements. -/
theorem executeVerified_of_infer_padded :
    scatteredQueries.isContiguous = false ∧
      ∃ results : List (Tensor Float32),
        (Flash.backwardOperator (Flash.reference .standard 2 true) true).executeVerified
          [some (.zeros (hostType [1, 2, 2, 1])), some scatteredQueries,
            some (.zeros (hostType [1, 2, 4, 3])), some (.zeros (hostType [1, 2, 4, 1])),
            some (.zeros (hostType [1, 2, 2, 1])), some (.zeros (hostType [1, 2, 2]))] .empty =
              .ok results ∧
          results.map Tensor.type =
            [hostType [1, 2, 2, 3], hostType [1, 2, 4, 3], hostType [1, 2, 4, 1]] := by
  refine ⟨by decide, ?_⟩
  have hb : (⟨Flash.backwardOperator (Flash.reference .standard 2 true) true,
      Flash.backwardScratch .standard⟩ : Builtin Float32) ∈ builtins .standard 2 true := by
    simp [builtins]
  have htypes : ∀ type, some type ∈ [some (hostType [1, 2, 2, 1]), some (hostType [1, 2, 2, 3]),
      some (hostType [1, 2, 4, 3]), some (hostType [1, 2, 4, 1]), some (hostType [1, 2, 2, 1]),
      some (hostType [1, 2, 2])] → type.dims ≠ [] := by
    simp [hostType, TensorType.dims]
  obtain ⟨results, -, hresults, hverified⟩ := (executeVerified_of_infer hb htypes .empty).2
    [hostType [1, 2, 2, 3], hostType [1, 2, 4, 3], hostType [1, 2, 4, 1]] rfl
    ⟨by decide, by decide⟩ [some (.zeros (hostType [1, 2, 2, 1])), some scatteredQueries,
      some (.zeros (hostType [1, 2, 4, 3])), some (.zeros (hostType [1, 2, 4, 1])),
      some (.zeros (hostType [1, 2, 2, 1])), some (.zeros (hostType [1, 2, 2]))] rfl
  exact ⟨results, hverified, hresults⟩

end Builtin

end TraceSubstitution
