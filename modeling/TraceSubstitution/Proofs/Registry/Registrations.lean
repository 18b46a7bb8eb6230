import TraceSubstitution.Flash.Executor
import TraceSubstitution.Proofs.Action
import TraceSubstitution.Proofs.Registry.Growth

/-!
# Registries over time

A registry is filled by registrations in any order, and some of them are refused. Each one
that succeeds keeps the registry sound and lets it grow, and what it registers is found
under its name. A registration is refused exactly if the name is taken, or if there is no
such namespace, and then nothing changes (`Registration.outcome_perform`). This is true as
well of the registration of the fused executor, which consists of several steps: the first
one, the registration of the namespace, decides (`Flash.registerAll_cases`).

The closing theorem says this of a registry at any time (`Registry.sound_of_registrations`).
-/

namespace TraceSubstitution

variable {α : Type}

namespace Registry

/-- What is found under names of namespaces and operators. -/
def found (r : Registry α) (names : List (String × String)) : List (Option (Operator α)) :=
  names.map fun x => r.operator? x.1 x.2

/-- What has happened to a registry: it has grown, and is sound if it was. -/
def Advances (s s' : Journaled (Registry α)) : Prop :=
  s.state.Sound → s'.state.Sound ∧ s.state.Grows s'.state

theorem Advances.trans {s s' s'' : Journaled (Registry α)} (h : Advances s s')
    (h' : Advances s' s'') : Advances s s'' := fun hs =>
  ⟨(h' (h hs).1).1, (h hs).2.trans (h' (h hs).1).2⟩

/-- What is in the namespaces counts, and nothing else. -/
theorem advances_of_namespaces {s s' : Journaled (Registry α)}
    (h : s'.state.namespaces = s.state.namespaces)
    (hnext : s'.state.nextOperator = s.state.nextOperator) : Advances s s' := by
  refine fun hs => ⟨⟨h ▸ hs.distinct, h ▸ hs.core, h ▸ hs.namespaces, ?_⟩, fun i ns hns => ?_⟩
  · rw [h, hnext]
    exact hs.identified
  · exact ⟨ns, h ▸ hns, .refl ns⟩

/-- A namespace is refused if its name is taken. -/
theorem apply_registerNamespace (name version : String) (s : Journaled (Registry α)) :
    (registerNamespace name version).apply s =
      if (s.state.namespace? name).isSome then
        (.error (.ofCause (.registry (.namespaceCollision name))), s)
      else (.ok (), ⟨s.state.addNamespace name version,
        s.journal ++ [namespaceEvent name version]⟩) := by
  unfold registerNamespace Journaled.current
  simp only [Act.apply_bind, Act.apply_get, Act.apply_pure, Act.apply_lift]
  cases h : s.state.namespace? name with
  | none => rfl
  | some ns => rfl

/-- An operator is refused if there is no such namespace or its name is taken there. -/
theorem apply_registerOperator (space name : String) (signature : Signature)
    (outputTypes : Operands TensorType → Except Failure (List TensorType))
    (compute : Operands (Tensor α) → Except Failure (List (Tensor α)))
    (s : Journaled (Registry α)) :
    (registerOperator space name signature outputTypes compute).apply s =
      match s.state.namespace? space with
      | none => (.error (.ofCause (.registry (.unknownNamespace space))), s)
      | some ns =>
        if (ns.operator? name).isSome then
          (.error (.ofCause (.registry (.nameCollision space name))), s)
        else
          let o := s.state.nextOperatorOf space name signature outputTypes compute
          (.ok o, ⟨s.state.addOperator o, s.journal ++ [operatorEvent o]⟩) := by
  unfold registerOperator Journaled.current namespaceNamed
  simp only [Act.apply_bind, Act.apply_get, Act.apply_pure, Act.apply_lift]
  cases s.state.namespace? space with
  | none => rfl
  | some ns =>
    simp only [orError_some]
    cases ns.operator? name with
    | none => rfl
    | some o => rfl

/-- A rule is refused if there is no such namespace. -/
theorem apply_registerRule (space : String) (rule : Substitution α) (s : Journaled (Registry α)) :
    (registerRule space rule).apply s =
      match s.state.namespace? space with
      | none => (.error (.ofCause (.registry (.unknownNamespace space))), s)
      | some ns => (.ok (), ⟨s.state.modifyNamespace space (·.addRule rule),
          s.journal ++ [ruleEvent (ns.nextRule rule)]⟩) := by
  unfold registerRule Journaled.current namespaceNamed
  simp only [Act.apply_bind, Act.apply_get, Act.apply_pure, Act.apply_lift]
  cases s.state.namespace? space with
  | none => rfl
  | some ns => rfl

variable {s s' : Journaled (Registry α)}

theorem advances_of_registerNamespace {name version : String}
    (h : (registerNamespace name version).apply s = (.ok (), s')) :
    Advances s s' ∧ s'.state.namespace? name = some (.empty name version) := by
  rw [apply_registerNamespace] at h
  split at h
  · exact nomatch (Prod.mk.inj h).1
  · next hfree =>
    have hfree := Bool.eq_false_iff.2 hfree
    obtain rfl := (Prod.mk.inj h).2
    refine ⟨fun hs => ?_, namespace?_addNamespace hfree version⟩
    exact ⟨hs.addNamespace hfree version, s.state.grows_addNamespace name version⟩

/-- An operator that has been registered is found from then on. -/
theorem advances_of_registerOperator {space name : String} {signature : Signature}
    {outputTypes : Operands TensorType → Except Failure (List TensorType)}
    {compute : Operands (Tensor α) → Except Failure (List (Tensor α))} {o : Operator α}
    (h : (registerOperator space name signature outputTypes compute).apply s = (.ok o, s')) :
    Advances s s' ∧ o.space = space ∧ o.name = name ∧
      s'.state.namespace? space = (s.state.namespace? space).map (·.addOperator o) ∧
      s'.state.operator? space name = some o := by
  rw [apply_registerOperator] at h
  cases hns : s.state.namespace? space with
  | none =>
    rw [hns] at h
    exact nomatch (Prod.mk.inj h).1
  | some ns =>
    simp only [hns] at h
    split at h
    · exact nomatch (Prod.mk.inj h).1
    · next hfree =>
      have hfree : ns.operator? name = none := by simpa using hfree
      obtain ⟨ho, rfl⟩ := Prod.mk.inj h
      obtain rfl := Except.ok.inj ho
      have hfound : (s.state.addOperator (s.state.nextOperatorOf space name signature outputTypes
          compute)).namespace? space = some (ns.addOperator (s.state.nextOperatorOf space name
            signature outputTypes compute)) := by
        have hmodified := s.state.namespace?_modifyNamespace space fun ns : Namespace α =>
          ns.grows_addOperator (s.state.nextOperatorOf space name signature outputTypes compute)
        rwa [hns] at hmodified
      refine ⟨fun hs => ⟨hs.addOperator rfl fun ns' hns' hname => ?_,
        s.state.grows_modifyNamespace space fun ns => ns.grows_addOperator _⟩, rfl, rfl, hfound, ?_⟩
      · have hsame := hs.namespace?_eq_some_iff.2 ⟨hns', hname⟩
        obtain rfl : ns = ns' := Option.some.inj (hns.symm.trans hsame)
        exact hfree
      · refine Option.bind_eq_some_iff.2 ⟨_, hfound, ?_⟩
        have hnone : ns.operators.find? (·.name = name) = none := hfree
        unfold Namespace.operator? Namespace.addOperator
        rw [List.find?_append, hnone]
        simp [nextOperatorOf]

theorem exists_of_registerRule {space : String} {rule : Substitution α}
    (h : (registerRule space rule).apply s = (.ok (), s')) :
    ∃ ns, s.state.namespace? space = some ns ∧
      s'.state = s.state.modifyNamespace space (·.addRule rule) := by
  rw [apply_registerRule] at h
  cases hns : s.state.namespace? space with
  | none =>
    rw [hns] at h
    exact nomatch (Prod.mk.inj h).1
  | some ns =>
    rw [hns] at h
    obtain rfl := (Prod.mk.inj h).2
    exact ⟨ns, rfl, rfl⟩

theorem advances_of_registerRule {space : String} {rule : Substitution α}
    (h : (registerRule space rule).apply s = (.ok (), s')) : Advances s s' := by
  obtain ⟨ns, -, hstate⟩ := exists_of_registerRule h
  intro hs
  rw [hstate]
  exact ⟨hs.addRule space rule,
    s.state.grows_modifyNamespace space fun ns => ns.grows_addRule rule⟩

/-- An operator is refused exactly if there is no such namespace or its name is taken there. -/
theorem registerOperator_cases (hs : s.state.Sound) (space name : String) (signature : Signature)
    (outputTypes : Operands TensorType → Except Failure (List TensorType))
    (compute : Operands (Tensor α) → Except Failure (List (Tensor α))) :
    ((∀ ns ∈ s.state.namespaces, ns.name = space → ∃ o ∈ ns.operators, o.name = name) ∧
      ∃ e, (registerOperator space name signature outputTypes compute).apply s = (.error e, s)) ∨
    ((¬∀ ns ∈ s.state.namespaces, ns.name = space → ∃ o ∈ ns.operators, o.name = name) ∧
      ∃ o s', (registerOperator space name signature outputTypes compute).apply s = (.ok o, s') ∧
        Advances s s' ∧ s'.state.operator? space name = some o) := by
  have happly := apply_registerOperator space name signature outputTypes compute s
  cases hns : s.state.namespace? space with
  | none =>
    rw [hns] at happly
    have hnone : ∀ ns ∈ s.state.namespaces, ns.name ≠ space := by simpa [namespace?] using hns
    exact .inl ⟨fun ns hmem hname => absurd hname (hnone ns hmem), _, happly⟩
  | some ns =>
    obtain ⟨hmem, hname⟩ := hs.namespace?_eq_some_iff.1 hns
    have hsound := hs.namespaces ns hmem
    simp only [hns] at happly
    cases ho : ns.operator? name with
    | some o =>
      rw [ho] at happly
      refine .inl ⟨fun ns' hmem' hname' => ?_, _, happly⟩
      have hsame := hs.namespace?_eq_some_iff.2 ⟨hmem', hname'⟩
      obtain rfl : ns = ns' := Option.some.inj (hns.symm.trans hsame)
      exact ⟨o, hsound.operator?_eq_some_iff.1 ho⟩
    | none =>
      rw [ho] at happly
      obtain ⟨hadvances, -, -, -, hfound⟩ := advances_of_registerOperator happly
      refine .inr ⟨fun htaken => ?_, _, _, happly, hadvances, hfound⟩
      obtain ⟨o, hmem', hname'⟩ := htaken ns hmem hname
      exact Option.some_ne_none o ((hsound.operator?_eq_some_iff.2 ⟨hmem', hname'⟩).symm.trans ho)

/-- An operator can be registered in a namespace that has none of its name. -/
theorem exists_registerOperator {space : String} {ns : Namespace α}
    (hns : s.state.namespace? space = some ns) (name : String) (hfree : ns.operator? name = none)
    (signature : Signature) (outputTypes : Operands TensorType → Except Failure (List TensorType))
    (compute : Operands (Tensor α) → Except Failure (List (Tensor α))) :
    ∃ o s', (registerOperator space name signature outputTypes compute).apply s = (.ok o, s') := by
  rw [apply_registerOperator, hns]
  simp only [hfree]
  exact ⟨_, _, rfl⟩

end Registry

namespace Flash

variable [Scalar α] {s s' : Journaled (Registry α)}

open Registry

/-- The names of the operators of the fused executor. -/
def operatorNames : List (String × String) :=
  [(executorName, "flash_fwd"), (executorName, "flash_bwd")]

/-- The operators of the fused executor. -/
def Executor.handles (executor : Executor α) : List (Operator α) :=
  [executor.operators.forward, executor.operators.backward]

/-- What a registration of the fused executor does after it has looked at the devices. -/
def registerAll (kernel : FlashKernel α) (config : FlashConfig) (available : Bool) :
    Act (Journaled (Registry α)) (Executor α) := do
  registerNamespace executorName executorVersion
  let ops ← registerOperators kernel available
  registerRule executorName (substitution config available ops)
  Journaled.note (registeredEvent available)
  return ⟨ops, available, config⟩

/-- The steps of the registration succeed if the first one does, and both operators are found. -/
theorem exists_registerAll (kernel : FlashKernel α) (config : FlashConfig) (available : Bool)
    (hfree : (s.state.namespace? executorName).isSome = false) :
    ∃ executor s', (registerAll kernel config available).apply s = (.ok executor, s') ∧
      Advances s s' ∧
      (s.state.Sound → s'.state.found operatorNames = executor.handles.map some) := by
  obtain ⟨s₁, hnamespace⟩ : ∃ s₁, (registerNamespace executorName executorVersion).apply s =
      (.ok (), s₁) := by
    rw [apply_registerNamespace, hfree]
    exact ⟨_, rfl⟩
  obtain ⟨hadvances₁, hempty⟩ := advances_of_registerNamespace hnamespace
  obtain ⟨forward, s₂, hforward⟩ := exists_registerOperator hempty "flash_fwd" rfl
    forwardSignature (fun args => do
      let types ← forwardTypes args
      return [types.1, types.2]) (computeForward kernel available)
  obtain ⟨hadvances₂, hspace, hname, hone, hfound⟩ := advances_of_registerOperator hforward
  rw [hempty, Option.map_some] at hone
  have hother : ((Namespace.empty executorName executorVersion).addOperator forward).operator?
      "flash_bwd" = none := by
    change [forward].find? (·.name = "flash_bwd") = none
    simp [hname]
  obtain ⟨backward, s₃, hbackward⟩ := exists_registerOperator hone "flash_bwd" hother
    backwardSignature backwardTypes (computeBackward kernel available)
  obtain ⟨hadvances₃, hspace', hname', htwo, hfound'⟩ := advances_of_registerOperator hbackward
  rw [hone, Option.map_some] at htwo
  obtain ⟨s₄, hrule⟩ : ∃ s₄, (registerRule executorName
      (substitution config available ⟨forward, backward⟩)).apply s₃ = (.ok (), s₄) := by
    rw [apply_registerRule, htwo]
    exact ⟨_, rfl⟩
  have hadvances₄ := advances_of_registerRule hrule
  have hoperators : (registerOperators kernel available).apply s₁ =
      (.ok ⟨forward, backward⟩, s₃) :=
    Act.apply_bind_eq_ok_iff.2 ⟨forward, s₂, hforward,
      Act.apply_bind_eq_ok_iff.2 ⟨backward, s₃, hbackward, rfl⟩⟩
  refine ⟨⟨⟨forward, backward⟩, available, config⟩,
    ⟨s₄.state, s₄.journal ++ [registeredEvent available]⟩, ?_, ?_, fun hs => ?_⟩
  · exact Act.apply_bind_eq_ok_iff.2 ⟨(), s₁, hnamespace, Act.apply_bind_eq_ok_iff.2
      ⟨_, s₃, hoperators, Act.apply_bind_eq_ok_iff.2 ⟨(), s₄, hrule, rfl⟩⟩⟩
  · exact ((hadvances₁.trans hadvances₂).trans hadvances₃).trans hadvances₄
  · obtain ⟨hs₂, -⟩ := (hadvances₁.trans hadvances₂) hs
    obtain ⟨hs₃, hgrows₃⟩ := hadvances₃ hs₂
    obtain ⟨hs₄, hgrows₄⟩ := hadvances₄ hs₃
    have hone := hgrows₄.operator? hs₃ hs₄ (hgrows₃.operator? hs₂ hs₃ hfound)
    have htwo := hgrows₄.operator? hs₃ hs₄ hfound'
    exact congrArg₂ (fun x y => [x, y]) hone htwo

/-- The devices are noted in the journal only. -/
theorem exists_apply_register (kernel : FlashKernel α) (config : FlashConfig) (available : Bool)
    (s : Journaled (Registry α)) : ∃ journal, (register kernel config available).apply s =
      (registerAll kernel config available).apply ⟨s.state, journal⟩ := by
  unfold register
  split
  · exact ⟨s.journal ++ [deviceEvent kernel config], rfl⟩
  · exact ⟨s.journal, rfl⟩

theorem exists_apply_registerProbed (kernel : FlashKernel α) (disabled : Option String)
    (s : Journaled (Registry α)) : ∃ available journal, (registerProbed kernel disabled).apply s =
      (registerAll kernel .standard available).apply ⟨s.state, journal⟩ := by
  obtain ⟨journal, happly⟩ := exists_apply_register kernel .standard
    (!Settings.switch disabled false && kernel.probe)
    ⟨s.state, s.journal ++ [probeEvent kernel (!Settings.switch disabled false && kernel.probe)]⟩
  exact ⟨_, journal, happly⟩

/-- The executor is refused if there is a namespace of its name, and then nothing changes. -/
theorem apply_registerAll_of_taken (kernel : FlashKernel α) (config : FlashConfig)
    (available : Bool) (htaken : (s.state.namespace? executorName).isSome = true) :
    (registerAll kernel config available).apply s =
      (.error (.ofCause (.registry (.namespaceCollision executorName))), s) := by
  unfold registerAll
  rw [Act.apply_bind, apply_registerNamespace, if_pos htaken]

/-- The executor is registered as a whole or not at all. -/
theorem registerAll_cases (kernel : FlashKernel α) (config : FlashConfig) (available : Bool)
    (s : Journaled (Registry α)) :
    ((∃ ns ∈ s.state.namespaces, ns.name = executorName) ∧
      (registerAll kernel config available).apply s =
        (.error (.ofCause (.registry (.namespaceCollision executorName))), s)) ∨
    ((¬∃ ns ∈ s.state.namespaces, ns.name = executorName) ∧ ∃ executor s',
      (registerAll kernel config available).apply s = (.ok executor, s') ∧ Advances s s' ∧
      (s.state.Sound → s'.state.found operatorNames = executor.handles.map some)) := by
  rw [← namespace?_isSome_iff, Bool.not_eq_true]
  cases htaken : (s.state.namespace? executorName).isSome with
  | true => exact .inl ⟨rfl, apply_registerAll_of_taken kernel config available htaken⟩
  | false => exact .inr ⟨rfl, exists_registerAll kernel config available htaken⟩

end Flash

/-- What is registered with a registry, or set. -/
inductive Registration (α : Type) where
  | ofNamespace (name version : String)
  | ofOperator (space name : String) (signature : Signature)
    (outputTypes : Operands TensorType → Except Failure (List TensorType))
    (compute : Operands (Tensor α) → Except Failure (List (Tensor α)))
  | ofHighLevel (space name : String) (signature : Signature)
    (outputTypes : Operands TensorType → Except Failure (List TensorType))
    (compute : Operands (Tensor α) → Except Failure (List (Tensor α)))
    (defaultGradient : Option (Transform α))
  | ofRule (space : String) (rule : Substitution α)
  | ofOverrides (overrides : Overrides)
  | ofFlash (kernel : FlashKernel α) (config : FlashConfig) (available : Bool)
  | ofProbed (kernel : FlashKernel α) (disabled : Option String)

namespace Registration

variable [Scalar α] {s s' : Journaled (Registry α)} {d : Registration α}

open Registry

/-- Makes a registration; returns the operators that have been registered. -/
def perform : Registration α → Act (Journaled (Registry α)) (List (Operator α))
  | ofNamespace name version => do
    registerNamespace name version
    return []
  | ofOperator space name signature outputTypes compute => do
    return [← registerOperator space name signature outputTypes compute]
  | ofHighLevel space name signature outputTypes compute defaultGradient => do
    let op ← registerHighLevel space name signature outputTypes compute defaultGradient
    return [op.operator]
  | ofRule space rule => do
    registerRule space rule
    return []
  | ofOverrides overrides => do
    Journaled.put { (← Journaled.current) with overrides }
    return []
  | ofFlash kernel config available => do
    let executor ← Flash.register kernel config available
    return executor.handles
  | ofProbed kernel disabled => do
    let executor ← Flash.registerProbed kernel disabled
    return executor.handles

/-- Makes registrations one after the other, whether they are refused or not. -/
def run (s : Journaled (Registry α)) (registrations : List (Registration α)) :
    Journaled (Registry α) :=
  registrations.foldl (fun s d => (d.perform.apply s).2) s

/-- The names under which a registration registers operators. -/
def names : Registration α → List (String × String)
  | ofOperator space name .. | ofHighLevel space name .. => [(space, name)]
  | ofFlash .. | ofProbed .. => Flash.operatorNames
  | ofNamespace .. | ofRule .. | ofOverrides .. => []

/-- The registration asks for a namespace that is taken, for a name that is taken in its
namespace, or for a namespace that does not exist. -/
def Refused (r : Registry α) : Registration α → Prop
  | ofNamespace name _ => ∃ ns ∈ r.namespaces, ns.name = name
  | ofOperator space name .. | ofHighLevel space name .. =>
    ∀ ns ∈ r.namespaces, ns.name = space → ∃ o ∈ ns.operators, o.name = name
  | ofRule space _ => ∀ ns ∈ r.namespaces, ns.name ≠ space
  | ofFlash .. | ofProbed .. => ∃ ns ∈ r.namespaces, ns.name = Flash.executorName
  | ofOverrides _ => False

/-- What a registration does: it returns what is found under its names from then on, or it is
refused and changes nothing. -/
inductive Outcome (d : Registration α) (s : Journaled (Registry α)) :
    Except Failure (List (Operator α)) × Journaled (Registry α) → Prop where
  | refused {e : Failure} {s' : Journaled (Registry α)} :
    d.Refused s.state → s'.state = s.state → d.Outcome s (.error e, s')
  | made {handles : List (Operator α)} {s' : Journaled (Registry α)} : ¬d.Refused s.state →
    s'.state.Sound → s.state.Grows s'.state → s'.state.found d.names = handles.map some →
    d.Outcome s (.ok handles, s')

/-- The fused executor is registered after the journal has been written to. -/
theorem outcome_of_registerAll {x : Act (Journaled (Registry α)) (Flash.Executor α)}
    {kernel : FlashKernel α} {config : FlashConfig} {available : Bool} {journal : Journal}
    (hd : d.perform = x >>= fun executor => pure executor.handles)
    (hnames : d.names = Flash.operatorNames)
    (hrefused : d.Refused s.state ↔ ∃ ns ∈ s.state.namespaces, ns.name = Flash.executorName)
    (hx : x.apply s = (Flash.registerAll kernel config available).apply ⟨s.state, journal⟩)
    (hs : s.state.Sound) : d.Outcome s (d.perform.apply s) := by
  rw [hd]
  rcases Flash.registerAll_cases kernel config available ⟨s.state, journal⟩ with
    ⟨htaken, herror⟩ | ⟨hfree, executor, s', hok, hadvances, hfound⟩
  · rw [Act.apply_bind_eq_error_iff.2 (.inl (hx.trans herror))]
    exact .refused (hrefused.2 htaken) rfl
  · rw [Act.apply_bind_eq_ok_iff.2 ⟨executor, s', hx.trans hok, rfl⟩]
    exact .made (mt hrefused.1 hfree) (hadvances hs).1 (hadvances hs).2 (hnames ▸ hfound hs)

/-- What a registration does to a sound registry. -/
theorem outcome_perform (d : Registration α) (hs : s.state.Sound) :
    d.Outcome s (d.perform.apply s) := by
  cases d with
  | ofNamespace name version =>
    unfold perform
    rw [Act.apply_bind, apply_registerNamespace]
    by_cases htaken : (s.state.namespace? name).isSome = true
    · rw [if_pos htaken]
      exact .refused (namespace?_isSome_iff.1 htaken) rfl
    · rw [if_neg htaken]
      exact .made (mt namespace?_isSome_iff.2 htaken)
        (hs.addNamespace (Bool.eq_false_iff.2 htaken) version)
        (s.state.grows_addNamespace name version) rfl
  | ofOperator space name signature outputTypes compute =>
    unfold perform
    rcases registerOperator_cases hs space name signature outputTypes compute with
      ⟨hrefused, e, herror⟩ | ⟨hfree, o, s', hok, hadvances, hfound⟩
    · rw [Act.apply_bind_eq_error_iff.2 (.inl herror)]
      exact .refused hrefused rfl
    · rw [Act.apply_bind_eq_ok_iff.2 ⟨o, s', hok, rfl⟩]
      exact .made hfree (hadvances hs).1 (hadvances hs).2 (congrArg (fun x => [x]) hfound)
  | ofHighLevel space name signature outputTypes compute defaultGradient =>
    unfold perform registerHighLevel
    rcases registerOperator_cases hs space name signature outputTypes compute with
      ⟨hrefused, e, herror⟩ | ⟨hfree, o, s', hok, hadvances, hfound⟩
    · rw [Act.apply_bind_eq_error_iff.2 (.inl (Act.apply_bind_eq_error_iff.2 (.inl herror)))]
      exact .refused hrefused rfl
    · rw [Act.apply_bind_eq_ok_iff.2 ⟨⟨o, defaultGradient⟩, _,
        Act.apply_bind_eq_ok_iff.2 ⟨o, s', hok, rfl⟩, rfl⟩]
      have hrest : Advances s' ⟨{ s'.state with
          highLevel := s'.state.highLevel ++ [⟨o, defaultGradient⟩] }, s'.journal⟩ :=
        advances_of_namespaces rfl rfl
      obtain ⟨hsound, hgrows⟩ := hadvances.trans hrest hs
      exact .made hfree hsound hgrows (congrArg (fun x => [x]) hfound)
  | ofRule space rule =>
    unfold perform
    rw [Act.apply_bind, apply_registerRule]
    cases hns : s.state.namespace? space with
    | none =>
      have hnone : ∀ ns ∈ s.state.namespaces, ns.name ≠ space := by simpa [namespace?] using hns
      exact .refused hnone rfl
    | some ns =>
      refine .made (fun hrefused => ?_) (hs.addRule space rule)
        (s.state.grows_modifyNamespace space fun ns => ns.grows_addRule rule) rfl
      obtain ⟨hmem, hname⟩ := hs.namespace?_eq_some_iff.1 hns
      exact hrefused ns hmem hname
  | ofOverrides overrides =>
    have hset : Advances s ⟨{ s.state with overrides }, s.journal⟩ :=
      advances_of_namespaces rfl rfl
    obtain ⟨hsound, hgrows⟩ := hset hs
    exact .made id hsound hgrows rfl
  | ofFlash kernel config available =>
    obtain ⟨journal, happly⟩ := Flash.exists_apply_register kernel config available s
    exact outcome_of_registerAll rfl rfl .rfl happly hs
  | ofProbed kernel disabled =>
    obtain ⟨available, journal, happly⟩ := Flash.exists_apply_registerProbed kernel disabled s
    exact outcome_of_registerAll rfl rfl .rfl happly hs

/-- One registration keeps a registry sound, whether it is refused or not. -/
theorem advances_perform (d : Registration α) (s : Journaled (Registry α)) :
    Advances s (d.perform.apply s).2 := by
  intro hs
  have houtcome := d.outcome_perform hs
  generalize d.perform.apply s = x at houtcome ⊢
  cases houtcome with
  | @refused e s' _ hsame =>
    change s'.state.Sound ∧ s.state.Grows s'.state
    rw [hsame]
    exact ⟨hs, .refl _⟩
  | made _ hsound hgrows _ => exact ⟨hsound, hgrows⟩

/-- Registrations keep a registry sound, whether they are refused or not. -/
theorem advances_run (s : Journaled (Registry α)) (registrations : List (Registration α)) :
    Advances s (run s registrations) := by
  induction registrations generalizing s with
  | nil => exact advances_of_namespaces rfl rfl
  | cons d registrations ih => exact (advances_perform d s).trans (ih _)

end Registration

/-- At any time the registry is sound and finds what is registered, through the names or
through a table of positions. What it finds it finds ever after, and the next registration is
refused, without effect, exactly if a name is taken or there is no such namespace. -/
theorem Registry.sound_of_registrations [Scalar α] (journal : Journal)
    (before after : List (Registration α)) :
    let s := Registration.run ⟨.initial, journal⟩ before
    let s' := Registration.run s after
    s.state.Sound ∧
    (∀ space ns, s.state.namespace? space = some ns ↔ ns ∈ s.state.namespaces ∧ ns.name = space) ∧
    (∀ ns ∈ s.state.namespaces, ∀ name,
      (∀ o, ns.operator? name = some o ↔ o ∈ ns.operators ∧ o.name = name) ∧
      ns.operator? name = ((Operator.positions ns.operators).get? name).bind (ns.operators[·]?)) ∧
    (∀ space name o, s.state.operator? space name = some o →
      s'.state.operator? space name = some o) ∧
    s.state.Grows s'.state ∧
    ∀ d : Registration α, d.Outcome s (d.perform.apply s) := by
  intro s s'
  obtain ⟨hs, -⟩ := Registration.advances_run ⟨.initial, journal⟩ before sound_initial
  obtain ⟨hs', hgrows⟩ := Registration.advances_run s after hs
  exact ⟨hs, fun _ _ => hs.namespace?_eq_some_iff,
    fun ns hns name => ⟨fun _ => (hs.namespaces ns hns).operator?_eq_some_iff,
      (hs.namespaces ns hns).operator?_eq_getElem? name⟩,
    fun _ _ _ ho => hgrows.operator? hs hs' ho, hgrows, fun d => d.outcome_perform hs⟩

end TraceSubstitution
