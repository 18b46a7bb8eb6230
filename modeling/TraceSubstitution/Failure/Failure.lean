import TraceSubstitution.Failure.Cause

/-!
# Failures

An operation that does not return a value either reports an error, which its
caller may react to, or panics, which ends whatever was being done. An error
keeps its cause and the contexts it passed through; `withContext` adds a context
to an error and leaves values and panics alone.

`Act σ` is an action on a state that may fail. The state survives a failure, so
what an action has done before it failed is seen afterwards.
-/

namespace TraceSubstitution

/-- Why an operation ended without a value or an error. -/
inductive Panic where
  /-- A shape without axes was made. -/
  | noAxes
  /-- The elements of a tensor were read as one block although they are scattered. -/
  | scattered
  /-- A fused kernel was run on a host without it. -/
  | kernelUnavailable (kernel : String)
  /-- An access fell outside a list, a block of elements or a shape. -/
  | outOfBounds
  /-- A buffer was asked for that no memory can hold. -/
  | tooLarge
  /-- An operator, checker or transform gave up with words of its own. -/
  | raised (text : String)

/-- The words of a panic, if it has any worth repeating. -/
def Panic.message : Panic → Option String
  | noAxes => some "shape must have at least one dimension"
  | scattered => some "tensor data is not contiguous; call contiguous() first"
  | kernelUnavailable kernel =>
    some s!"{kernel} kernel is unavailable on this host; its checker must reject before dispatch"
  | outOfBounds => none
  | tooLarge => none
  | raised text => some text

/-- A cause with the contexts it passed through, outermost first. -/
structure Error where
  /-- What went wrong. -/
  cause : Cause
  /-- What was being done, outermost first. -/
  contexts : List String

namespace Error

/-- The wording of an error with all its contexts. -/
def message (e : Error) : String := String.intercalate ": " (e.contexts ++ [e.cause.message])

/-- The same error as seen from outside `context`. -/
def within (e : Error) (context : String) : Error := { e with contexts := context :: e.contexts }

end Error

/-- An operation that ended without a value. -/
inductive Failure where
  | error (e : Error)
  | panic (p : Panic)

namespace Failure

/-- An error without context. -/
def ofCause (c : Cause) : Failure := error ⟨c, []⟩

/-- The same failure as seen from outside `context`; only errors take notice. -/
def within (context : String) : Failure → Failure
  | error e => error (e.within context)
  | panic p => panic p

end Failure

/-- Adds a context to the error of an operation. -/
def withContext {β : Type} (context : String) (x : Except Failure β) : Except Failure β :=
  x.mapError (·.within context)

@[simp] theorem withContext_ok {β : Type} (context : String) (b : β) :
    withContext context (.ok b) = .ok b := rfl

theorem withContext_eq_ok_iff {β : Type} {context : String} {x : Except Failure β} {b : β} :
    withContext context x = .ok b ↔ x = .ok b := by
  cases x
  · exact ⟨nofun, nofun⟩
  · exact Iff.rfl

/-- Refuses with `cause` unless `condition` holds. -/
def ensure (condition : Bool) (cause : Cause) : Except Failure Unit :=
  if condition then .ok () else .error (.ofCause cause)

@[simp] theorem ensure_true (cause : Cause) : ensure true cause = .ok () := rfl

@[simp] theorem ensure_false (cause : Cause) :
    ensure false cause = .error (.ofCause cause) := rfl

theorem ensure_eq_ok_iff {condition : Bool} {cause : Cause} :
    ensure condition cause = .ok () ↔ condition = true := by
  cases condition <;> simp

/-- The value of a partial function, or a panic where it has none. -/
def orPanic {β : Type} (p : Panic) : Option β → Except Failure β
  | some b => .ok b
  | none => .error (.panic p)

@[simp] theorem orPanic_some {β : Type} (p : Panic) (b : β) : orPanic p (some b) = .ok b := rfl

theorem orPanic_eq_ok_iff {β : Type} {p : Panic} {x : Option β} {b : β} :
    orPanic p x = .ok b ↔ x = some b := by
  cases x <;> simp [orPanic]

/-- The value of a partial function, or an error where it has none. -/
def orError {β : Type} (c : Cause) : Option β → Except Failure β
  | some b => .ok b
  | none => .error (.ofCause c)

@[simp] theorem orError_some {β : Type} (c : Cause) (b : β) : orError c (some b) = .ok b := rfl

theorem orError_eq_ok_iff {β : Type} {c : Cause} {x : Option β} {b : β} :
    orError c x = .ok b ↔ x = some b := by
  cases x <;> simp [orError]

/-- An action on a state that may fail; the state survives. -/
abbrev Act (σ : Type) : Type → Type := ExceptT Failure (StateM σ)

namespace Act

variable {σ β : Type}

/-- What an action does to a state: its result, and the state afterwards. -/
def apply (x : Act σ β) (s : σ) : Except Failure β × σ := x.run s

/-- The action with the given effect. -/
def of (f : σ → Except Failure β × σ) : Act σ β := f

/-- An operation that leaves the state alone. -/
def lift (x : Except Failure β) : Act σ β := fun s => (x, s)

instance : MonadLift (Except Failure) (Act σ) := ⟨Act.lift⟩

/-- The result of an action that may not fail with an error; a panic still goes through. -/
def attempt (x : Act σ β) : Act σ (Except Error β) := fun s =>
  match x.apply s with
  | (.ok b, s) => (.ok (.ok b), s)
  | (.error (.error e), s) => (.ok (.error e), s)
  | (.error (.panic p), s) => (.error (.panic p), s)

/-- The result of an action together with the state it leaves, which is lost on failure. -/
def outcome (x : Act σ β) (s : σ) : Except Failure (β × σ) :=
  match x.apply s with
  | (.ok b, s) => .ok (b, s)
  | (.error e, _) => .error e

@[simp] theorem apply_lift (x : Except Failure β) (s : σ) :
    (lift x : Act σ β).apply s = (x, s) := rfl

end Act

end TraceSubstitution
