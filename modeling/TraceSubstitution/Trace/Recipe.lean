import TraceSubstitution.Trace.Tracer

/-!
# Recipes

A `Recipe` describes what is done with a tracer without naming one: calls of
operators, requests for incoming gradients, and contributions to gradients, each
followed by what comes next. What comes next may depend on the symbols that a
step returns and also on the error it may report instead; a recipe that does not
look at errors ends with the first one. A panic always ends a recipe. A recipe may
also read the tracer, which leaves it as it is, and go on with what it has read.

A `Transform` is a recipe for the operands of a call. It replaces the call, or
describes its gradient. Transforms are meant to call operators, and gradient transforms
to ask for incoming gradients and to contribute to gradients as well; so a recipe
cannot declare inputs (`Tracer.input`), nor open or close a capture.
-/

namespace TraceSubstitution

/-- What is done with a tracer, with a result of type `β`. There is no step for `Tracer.input`: a
transform is documented to make calls of operators and the two gradient calls only. -/
inductive Recipe (α β : Type) where
  /-- Nothing more is done. -/
  | done (result : Except Failure β)
  /-- Reads the tracer. -/
  | read (next : Tracer α → Recipe α β)
  /-- Calls an operator. -/
  | call (op : NodeOp α) (operands : List (Option Symbol)) (attrs : Attrs)
      (next : Except Error (List Symbol) → Recipe α β)
  /-- Asks for the gradient that flows into a symbol. -/
  | incoming (primal : Symbol) (next : Except Error Symbol → Recipe α β)
  /-- Adds a contribution to the gradient of a symbol. -/
  | accumulate (target contribution : Symbol) (next : Except Error Unit → Recipe α β)

namespace Recipe

variable {α β γ : Type}

/-- Does one recipe and then another one that depends on its result. -/
def bind (r : Recipe α β) (f : β → Recipe α γ) : Recipe α γ :=
  match r with
  | done (.ok b) => f b
  | done (.error e) => done (.error e)
  | read next => read fun t => (next t).bind f
  | call op operands attrs next => call op operands attrs fun x => (next x).bind f
  | incoming primal next => incoming primal fun x => (next x).bind f
  | accumulate target contribution next => accumulate target contribution fun x => (next x).bind f

instance : Monad (Recipe α) where
  pure b := done (.ok b)
  bind := bind

/-- An operation that needs no tracer. -/
def lift (x : Except Failure β) : Recipe α β := done x

instance : MonadLift (Except Failure) (Recipe α) := ⟨lift⟩

/-- Goes on with the value of a step, or ends with its error. -/
def orEnd (f : β → Recipe α γ) : Except Error β → Recipe α γ
  | .ok b => f b
  | .error e => done (.error (.error e))

/-- The outputs of a call. -/
def outputsOf (op : NodeOp α) (operands : List (Option Symbol)) (attrs : Attrs) :
    Recipe α (List Symbol) := call op operands attrs (orEnd pure)

/-- The gradient that flows into a symbol. -/
def incomingGradient (primal : Symbol) : Recipe α Symbol := incoming primal (orEnd pure)

/-- Adds a contribution to the gradient of a symbol. -/
def accumulateGradient (target contribution : Symbol) : Recipe α Unit :=
  accumulate target contribution (orEnd pure)

/-- Does a recipe with a tracer. -/
def run : Recipe α β → Act (Tracer α) β
  | done result => Act.lift result
  | read next => do (next (← get)).run
  | call op operands attrs next => do (next (← (Tracer.call op operands attrs).attempt)).run
  | incoming primal next => do (next (← (Tracer.incomingGradient primal).attempt)).run
  | accumulate target contribution next => do
    (next (← (Tracer.accumulateGradient target contribution).attempt)).run

end Recipe

/-- A recipe for the operands of a call; it returns the symbols of the outputs. -/
abbrev Transform (α : Type) : Type := Operands Symbol → Recipe α (List Symbol)

/-- The only element of a list of outputs. -/
def single (outputs : List Symbol) : Except Failure Symbol :=
  match outputs with
  | [s] => .ok s
  | _ => .error (.ofCause (.tracing .notSingle))

@[simp] theorem single_singleton (s : Symbol) : single [s] = .ok s := rfl

/-- An operator that stands for any implementation of its promise, with the gradient that is
used when nothing replaces it. -/
structure HighLevelOp (α : Type) where
  /-- The operator. -/
  operator : Operator α
  /-- Its own gradient. -/
  defaultGradient : Option (Transform α)

/-- An operator that may be substituted as it is shown to a person. -/
def HighLevelOp.detail {α : Type} (op : HighLevelOp α) : String :=
  "HighLevelOp \x7b operator: " ++ op.operator.detail
    ++ ", has_default_grad: " ++ toString op.defaultGradient.isSome ++ " \x7d"

end TraceSubstitution
