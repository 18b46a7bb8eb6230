import TraceSubstitution.Proofs.Registry.Registrations

/-!
# Which policy is in force

Overrides are replaced as a whole, by nothing but the setting of other ones: all other
registrations keep them (`Registration.overrides_perform`), whether they are refused or
not. So at any time the overrides in force are those that have been set last
(`Registration.overrides_run`).

Overrides give every operator one policy (`Overrides.Gives`): the one under its qualified
name, or else the one under its bare name, or else the default.
-/

namespace TraceSubstitution

variable {α : Type}

namespace Overrides

/-- The policy that overrides give an operator. -/
inductive Gives (o : Overrides) (target : Operator α) : Policy → Prop where
  /-- There is a policy under the qualified name. -/
  | qualified {p : Policy} : o.get? target.qualifiedName = some p → o.Gives target p
  /-- There is none, but one under the bare name. -/
  | bare {p : Policy} : o.get? target.qualifiedName = none → o.get? target.name = some p →
    o.Gives target p
  /-- There is a policy under neither name. -/
  | neither : o.get? target.qualifiedName = none → o.get? target.name = none →
    o.Gives target .default

theorem gives_iff {o : Overrides} {target : Operator α} {p : Policy} :
    o.Gives target p ↔ o.policyFor target.qualifiedName target.name = p := by
  unfold policyFor
  constructor
  · intro h
    cases h with
    | qualified hq => rw [hq]; rfl
    | bare hq hb => rw [hq, hb]; rfl
    | neither hq hb => rw [hq, hb]; rfl
  · rintro rfl
    cases hq : o.get? target.qualifiedName with
    | some p => exact .qualified hq
    | none =>
      cases hb : o.get? target.name with
      | some p => exact .bare hq hb
      | none => exact .neither hq hb

/-- Overrides give an operator one policy. -/
theorem Gives.unique {o : Overrides} {target : Operator α} {p p' : Policy} (h : o.Gives target p)
    (h' : o.Gives target p') : p = p' := (gives_iff.1 h).symm.trans (gives_iff.1 h')

end Overrides

namespace Registry

/-- The overrides of a registry with a journal. -/
def overridesIn (s : Journaled (Registry α)) : Overrides := s.state.overrides

theorem keeps_registerNamespace (name version : String) :
    (registerNamespace name version : Act (Journaled (Registry α)) Unit).Keeps overridesIn := by
  intro s
  rw [apply_registerNamespace]
  split <;> rfl

theorem keeps_registerOperator (space name : String) (signature : Signature)
    (outputTypes : Operands TensorType → Except Failure (List TensorType))
    (compute : Operands (Tensor α) → Except Failure (List (Tensor α))) :
    (registerOperator space name signature outputTypes compute).Keeps overridesIn := by
  intro s
  rw [apply_registerOperator]
  cases s.state.namespace? space with
  | none => rfl
  | some ns =>
    dsimp only
    split <;> rfl

theorem keeps_registerHighLevel (space name : String) (signature : Signature)
    (outputTypes : Operands TensorType → Except Failure (List TensorType))
    (compute : Operands (Tensor α) → Except Failure (List (Tensor α)))
    (defaultGradient : Option (Transform α)) :
    (registerHighLevel space name signature outputTypes compute defaultGradient).Keeps
      overridesIn :=
  (keeps_registerOperator space name signature outputTypes compute).bind fun _ _ => rfl

theorem keeps_registerRule (space : String) (rule : Substitution α) :
    (registerRule space rule).Keeps overridesIn := by
  intro s
  rw [apply_registerRule]
  cases s.state.namespace? space with
  | none => rfl
  | some ns => rfl

end Registry

open Registry

variable [Scalar α]

namespace Flash

theorem keeps_registerAll (kernel : FlashKernel α) (config : FlashConfig) (available : Bool) :
    (registerAll kernel config available).Keeps overridesIn := by
  refine (keeps_registerNamespace _ _).bind fun _ => .bind ?_ fun ops =>
    (keeps_registerRule _ _).bind fun _ s => rfl
  exact (keeps_registerOperator _ _ _ _ _).bind fun forward =>
    (keeps_registerOperator _ _ _ _ _).bind fun backward s => rfl

theorem keeps_register (kernel : FlashKernel α) (config : FlashConfig) (available : Bool) :
    (register kernel config available).Keeps overridesIn := by
  intro s
  obtain ⟨journal, happly⟩ := exists_apply_register kernel config available s
  rw [happly]
  exact keeps_registerAll kernel config available ⟨s.state, journal⟩

theorem keeps_registerProbed (kernel : FlashKernel α) (disabled : Option String) :
    (registerProbed kernel disabled).Keeps overridesIn := by
  intro s
  obtain ⟨available, journal, happly⟩ := exists_apply_registerProbed kernel disabled s
  rw [happly]
  exact keeps_registerAll kernel .standard available ⟨s.state, journal⟩

end Flash

namespace Registration

/-- The overrides that a registration sets. -/
def overrides? : Registration α → Option Overrides
  | ofOverrides overrides => some overrides
  | _ => none

/-- The overrides that have been set last. -/
def lastOverrides (registrations : List (Registration α)) : Overrides :=
  (registrations.filterMap overrides?).getLastD .empty

/-- Nothing but setting overrides changes them. -/
theorem overrides_perform (d : Registration α) (s : Journaled (Registry α)) :
    (d.perform.apply s).2.state.overrides = d.overrides?.getD s.state.overrides := by
  cases d with
  | ofNamespace name version =>
    exact (keeps_registerNamespace name version).bind (fun _ s => rfl) s
  | ofOperator space name signature outputTypes compute =>
    exact (keeps_registerOperator space name signature outputTypes compute).bind (fun _ s => rfl) s
  | ofHighLevel space name signature outputTypes compute defaultGradient =>
    exact (keeps_registerHighLevel space name signature outputTypes compute defaultGradient).bind
      (fun _ s => rfl) s
  | ofRule space rule => exact (keeps_registerRule space rule).bind (fun _ s => rfl) s
  | ofOverrides overrides => rfl
  | ofFlash kernel config available =>
    exact (Flash.keeps_register kernel config available).bind (fun _ s => rfl) s
  | ofProbed kernel disabled =>
    exact (Flash.keeps_registerProbed kernel disabled).bind (fun _ s => rfl) s

/-- The overrides in force are those that have been set last. -/
theorem overrides_run (s : Journaled (Registry α)) (registrations : List (Registration α)) :
    (run s registrations).state.overrides =
      (registrations.filterMap overrides?).getLastD s.state.overrides := by
  induction registrations generalizing s with
  | nil => rfl
  | cons d registrations ih =>
    have hstep : run s (d :: registrations) = run (d.perform.apply s).2 registrations := rfl
    rw [hstep, ih, overrides_perform, List.filterMap_cons]
    cases d.overrides? with
    | none => rfl
    | some overrides => rw [List.getLastD_cons]; rfl

end Registration

end TraceSubstitution
