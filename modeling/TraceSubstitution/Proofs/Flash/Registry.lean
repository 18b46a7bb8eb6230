import TraceSubstitution.Proofs.Gradient.Transforms
import TraceSubstitution.Proofs.Replacement.Dispatch
import TraceSubstitution.Replacement.Joint

/-!
# The registry with the fused executor

Registering the fused executor adds two operators and one rule to the initial
registry: `Flash.apply_register`. Calls of addition are never replaced, and calls
of attention only by this rule, when its checker admits them; this depends on the
types of the operands, and not on the mode (`Offers.exists_rule_attention`).
-/

namespace TraceSubstitution

namespace Flash

variable {α : Type} [Scalar α]

/-- `flash_fwd` as it is registered first of all. -/
def forwardOperator (kernel : FlashKernel α) (available : Bool) : Operator α where
  id := ⟨4⟩
  space := executorName
  name := "flash_fwd"
  signature := forwardSignature
  outputTypes args := do
    let (out, lse) ← forwardTypes args
    return [out, lse]
  compute := computeForward kernel available

/-- `flash_bwd` as it is registered after `flash_fwd`. -/
def backwardOperator (kernel : FlashKernel α) (available : Bool) : Operator α where
  id := ⟨5⟩
  space := executorName
  name := "flash_bwd"
  signature := backwardSignature
  outputTypes := backwardTypes
  compute := computeBackward kernel available

/-- The operators that are registered for a kernel. -/
def registeredOperators (kernel : FlashKernel α) (available : Bool) : Operators α :=
  ⟨forwardOperator kernel available, backwardOperator kernel available⟩

/-- The rule that is registered. -/
def rule (config : FlashConfig) (available : Bool) (ops : Operators α) : Rule α :=
  { substitution config available ops with executor := executorName, sequence := 0 }

/-- The registry after the registration. -/
def registered (kernel : FlashKernel α) (config : FlashConfig) (available : Bool) : Registry α where
  namespaces := [⟨coreSpace, Registry.coreVersion, Core.operators, []⟩,
    ⟨executorName, executorVersion, [forwardOperator kernel available,
      backwardOperator kernel available],
      [rule config available (registeredOperators kernel available)]⟩]
  overrides := .empty
  highLevel := Core.highLevelOperators
  nextOperator := 6

/-- The fused executor can be registered with every kernel and every configuration. -/
theorem apply_register (kernel : FlashKernel α) (config : FlashConfig) (available : Bool)
    (journal : Journal) : ∃ journal', (register kernel config available).apply
      ⟨.initial, journal⟩ = (.ok ⟨registeredOperators kernel available, available, config⟩,
        ⟨registered kernel config available, journal'⟩) := by
  unfold register
  split
  · exact ⟨_, rfl⟩
  · exact ⟨_, rfl⟩

/-- The registered operators accept what attention accepts on operands with four axes. -/
theorem acceptsCall_registeredOperators (kernel : FlashKernel α) (available : Bool)
    {query key value output : TensorType} {mask : Option TensorType}
    (h : Attention.Accepts query key value mask output) (hrank : query.rank = 4) :
    ∃ lse, ∀ causal scale, AcceptsCall (registeredOperators kernel available) query key value output
      lse (callAttrs causal scale) := by
  obtain ⟨lse, hforward⟩ := forwardTypes_eq_ok h hrank
  have hbackward := backwardTypes_eq_ok hforward
  refine ⟨lse, fun causal scale => ⟨?_, ?_, ?_, ?_⟩⟩
  · exact Operator.bind_eq_ok_iff.2 ⟨rfl, bindAttrs_forwardSignature _ causal scale⟩
  · unfold Operator.inferBound
    rw [withContext_eq_ok_iff]
    exact bind_eq_ok_iff.2 ⟨_, hforward _ _, rfl⟩
  · exact Operator.bind_eq_ok_iff.2 ⟨rfl, bindAttrs_backwardSignature _ causal scale⟩
  · unfold Operator.inferBound
    rw [withContext_eq_ok_iff]
    exact hbackward _ _

/-- A replacer with the fused executor, under any overrides and options. -/
def replacer (kernel : FlashKernel α) (config : FlashConfig) (available : Bool)
    (overrides : Overrides) (options : ReplacerOptions) : Replacer α :=
  ⟨{ registered kernel config available with overrides }, options⟩

omit [Scalar α] in
/-- The checker looks at the types of the operands and the static arguments. -/
theorem typeDirected_checker (config : FlashConfig) (available : Bool) :
    (checker config available).TypeDirected := by
  intro args args' _ htypes hattrs
  have hjoin : ∀ x : Option (Option Symbol),
      x.join.map Symbol.type = (x.map (·.map Symbol.type)).join := by
    intro x
    cases x with
    | none => rfl
    | some y => rfl
  have hoptional : ∀ i, (args.optional i).map Symbol.type = (args'.optional i).map Symbol.type := by
    intro i
    unfold Operands.optional
    rw [hjoin, hjoin, ← List.getElem?_map, ← List.getElem?_map, htypes]
  have hnone : (args.optional 3).isNone = (args'.optional 3).isNone := by
    have hmap := congrArg Option.isNone (hoptional 3)
    rwa [Option.isNone_map, Option.isNone_map] at hmap
  have htype : ∀ i, args.optional i = none ∧ args'.optional i = none ∨
      ∃ s s', args.optional i = some s ∧ args'.optional i = some s' ∧ s.type = s'.type := by
    intro i
    have hmap := hoptional i
    cases h : args.optional i with
    | none =>
      rw [h] at hmap
      exact .inl ⟨rfl, Option.map_eq_none_iff.1 hmap.symm⟩
    | some s =>
      rw [h] at hmap
      obtain ⟨s', hs', htype⟩ := Option.map_eq_some_iff.1 hmap.symm
      exact .inr ⟨s, s', rfl, hs', htype.symm⟩
  unfold checker admits
  rw [hnone, hattrs]
  rcases htype 0 with ⟨hq, hq'⟩ | ⟨q, q', hq, hq', hqtype⟩
  · simp only [hq, hq']
  · rcases htype 1 with ⟨hk, hk'⟩ | ⟨k, k', hk, hk', hktype⟩
    · simp only [hq, hq', hk, hk']
    · rcases htype 2 with ⟨hv, hv'⟩ | ⟨v, v', hv, hv', hvtype⟩
      · simp only [hq, hq', hk, hk', hv, hv']
      · simp only [hq, hq', hk, hk', hv, hv', List.all_cons, List.all_nil, hqtype, hktype, hvtype]

/-- There are operands of any given types. -/
theorem exists_operands_of_types (types : List (Option TensorType)) :
    ∃ operands : List (Option Symbol), operands.map (·.map Symbol.type) = types := by
  refine ⟨types.map (·.map (⟨⟨0⟩, ⟨0⟩, ·⟩)), ?_⟩
  simp [Function.comp_def]

/-- The replacer knows the operators of the initial registry, and no rule but that of the fused
executor, which it need not know either. -/
structure Offers (config : FlashConfig) (available : Bool) (ops : Operators α) (r : Replacer α) :
    Prop where
  rules : ∀ x ∈ r.registry.rules, x = rule config available ops
  add : r.gradientTransform Core.add none = .ok (Core.addGradient, coreSpace)
  attention : r.gradientTransform Attention.operator none = .ok (Attention.gradient, coreSpace)

namespace Offers

variable {config : FlashConfig} {available : Bool} {ops : Operators α} {r : Replacer α}

theorem typeDirected (h : Offers config available ops r) : r.TypeDirected := by
  intro x hx
  rw [h.rules x hx]
  exact typeDirected_checker config available

/-- The rule replaces attention in both modes. -/
theorem hasGradient (h : Offers config available ops r) :
    ∀ x ∈ r.registry.rules, x.gradient.isSome = true := by
  intro x hx
  rw [h.rules x hx]
  rfl

variable (args : Operands Symbol) (gradient : Bool)

/-- Calls of addition are not replaced. -/
theorem chosenRule_add (h : Offers config available ops r) :
    r.chosenRule Core.add args gradient = .ok none := by
  refine Replacer.firstAdmitting_eq_none_iff.2 fun x hx => ?_
  obtain ⟨hmem, happlies⟩ := Registry.mem_of_mem_candidateRules hx
  rw [h.rules x hmem] at happlies
  exact absurd happlies Bool.false_ne_true

/-- Calls of attention are replaced by the rule of the fused executor only, and only if its checker
admits them. -/
theorem chosenRule_attention (h : Offers config available ops r) :
    r.chosenRule Attention.operator args gradient = .ok none ∨
      (r.chosenRule Attention.operator args gradient = .ok (some (rule config available ops)) ∧
        admits config available args = true) := by
  have hrule : ∀ x ∈ r.registry.candidateRules Attention.operator r.options.executors gradient,
      x = rule config available ops := fun x hx =>
    h.rules x (Registry.mem_of_mem_candidateRules hx).1
  cases hadmits : admits config available args with
  | false =>
    refine .inl (Replacer.firstAdmitting_eq_none_iff.2 fun x hx => ?_)
    rw [hrule x hx]
    exact congrArg Except.ok hadmits
  | true =>
    unfold Replacer.chosenRule
    generalize r.registry.candidateRules Attention.operator r.options.executors gradient = rules
      at hrule ⊢
    cases rules with
    | nil => exact .inl rfl
    | cons x rules =>
      refine .inr ⟨Replacer.firstAdmitting_eq_some_iff.2 ⟨[], rules, ?_, ?_,
        fun y hy => absurd hy List.not_mem_nil⟩, rfl⟩
      · rw [hrule x List.mem_cons_self]
        rfl
      · exact congrArg Except.ok hadmits

/-- The types of the operands and the static arguments settle which rule replaces calls of
attention, in both modes. -/
theorem exists_rule_attention (h : Offers config available ops r)
    (types : List (Option TensorType)) (attrs : Attrs) :
    ∃ chosen, (∀ gradient (operands : List (Option Symbol)),
      operands.map (·.map Symbol.type) = types → r.chosenRule Attention.operator
        ⟨(Attention.operator : Operator α).qualifiedName, operands, attrs⟩ gradient = .ok chosen) ∧
      (chosen = none ∨ chosen = some (rule config available ops) ∧
        ∀ operands : List (Option Symbol), operands.map (·.map Symbol.type) = types →
          admits config available
            ⟨(Attention.operator : Operator α).qualifiedName, operands, attrs⟩ = true) := by
  obtain ⟨symbols, hsymbols⟩ := exists_operands_of_types types
  let args : Operands Symbol := ⟨(Attention.operator : Operator α).qualifiedName, symbols, attrs⟩
  have hsame : ∀ gradient (operands : List (Option Symbol)),
      operands.map (·.map Symbol.type) = types → r.chosenRule Attention.operator
        ⟨(Attention.operator : Operator α).qualifiedName, operands, attrs⟩ gradient =
          r.chosenRule Attention.operator args false := by
    intro gradient operands htypes
    rw [Replacer.chosenRule_of_gradient h.hasGradient]
    exact Replacer.chosenRule_congr h.typeDirected rfl (htypes.trans hsymbols.symm) rfl
  rcases h.chosenRule_attention args false with hnone | ⟨hsome, hadmits⟩
  · exact ⟨none, fun gradient operands htypes => (hsame gradient operands htypes).trans hnone,
      .inl rfl⟩
  · refine ⟨_, fun gradient operands htypes => (hsame gradient operands htypes).trans hsome,
      .inr ⟨rfl, fun operands htypes => ?_⟩⟩
    have hchecked := typeDirected_checker config available
      ⟨(Attention.operator : Operator α).qualifiedName, operands, attrs⟩ args rfl
        (htypes.trans hsymbols.symm) rfl
    exact (Except.ok.inj hchecked).trans hadmits

end Offers

section Replacer

variable (kernel : FlashKernel α) (config : FlashConfig) (available : Bool)
  (overrides : Overrides) (options : ReplacerOptions)

theorem rules_replacer : (replacer kernel config available overrides options).registry.rules =
    [rule config available (registeredOperators kernel available)] := rfl

theorem offers_replacer : Offers config available (registeredOperators kernel available)
    (replacer kernel config available overrides options) where
  rules x hx := by
    rw [rules_replacer, List.mem_singleton] at hx
    exact hx
  add := rfl
  attention := rfl

/-- A replacer that knows the initial registry only. -/
theorem offers_initial (ops : Operators α) :
    Offers config available ops ⟨{ Registry.initial with overrides }, options⟩ where
  rules _ hx := absurd hx List.not_mem_nil
  add := rfl
  attention := rfl

theorem gradientTransform_rule (r : Replacer α) (o : Operator α) (ops : Operators α) :
    r.gradientTransform o (some (rule config available ops)) =
      .ok (Flash.gradient ops, executorName) := rfl

end Replacer

end Flash

end TraceSubstitution
