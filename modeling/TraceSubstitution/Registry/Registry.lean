import TraceSubstitution.Core
import TraceSubstitution.Journal
import TraceSubstitution.Registry.Policy
import TraceSubstitution.Registry.Rule

/-!
# The registry of executors

Executors are namespaces: each owns operators and substitution rules. Names of
namespaces are distinct, and so are the names of the operators of one namespace;
a registration that would break this is refused and changes nothing. A registry
starts with the `core` namespace. It also keeps the default gradients of the
operators that may be substituted.
-/

namespace TraceSubstitution

/-- Operators and rules under one name. -/
structure Namespace (α : Type) where
  /-- The name of the executor. -/
  name : String
  /-- Its version. -/
  version : String
  /-- Its operators, in the order of registration. -/
  operators : List (Operator α)
  /-- Its rules, in the order of registration. -/
  rules : List (Rule α)

namespace Namespace

variable {α : Type}

/-- A namespace without operators and rules. -/
def empty (name version : String) : Namespace α := ⟨name, version, [], []⟩

/-- The operator of the given name, if there is one. -/
def operator? (ns : Namespace α) (name : String) : Option (Operator α) :=
  ns.operators.find? (·.name = name)

/-- Adds an operator. -/
def addOperator (ns : Namespace α) (o : Operator α) : Namespace α :=
  { ns with operators := ns.operators ++ [o] }

/-- A substitution as the next rule of the namespace. -/
def nextRule (ns : Namespace α) (s : Substitution α) : Rule α :=
  { s with executor := ns.name, sequence := ns.rules.length }

/-- Adds a rule. -/
def addRule (ns : Namespace α) (s : Substitution α) : Namespace α :=
  { ns with rules := ns.rules ++ [ns.nextRule s] }

end Namespace

/-- All executors with the overrides in force. -/
structure Registry (α : Type) where
  /-- The namespaces, in the order of registration. -/
  namespaces : List (Namespace α)
  /-- The policies in force. -/
  overrides : Overrides
  /-- The operators that may be substituted, with their default gradients. -/
  highLevel : List (HighLevelOp α)
  /-- The number of the next operator. -/
  nextOperator : Nat

namespace Registry

variable {α : Type}

/-- The version of the `core` namespace. -/
def coreVersion : String := "0.1.0"

/-- The registry that holds the `core` namespace alone. -/
def initial [Scalar α] : Registry α where
  namespaces := [⟨coreSpace, coreVersion, Core.operators, []⟩]
  overrides := .empty
  highLevel := Core.highLevelOperators
  nextOperator := (Core.operators : List (Operator α)).length

/-- The namespace of the given name, if there is one. -/
def namespace? (r : Registry α) (name : String) : Option (Namespace α) :=
  r.namespaces.find? (·.name = name)

/-- The namespace of the given name. -/
def namespaceNamed (r : Registry α) (name : String) : Except Failure (Namespace α) :=
  orError (.registry (.unknownNamespace name)) (r.namespace? name)

/-- The registry with one namespace changed. -/
def modifyNamespace (r : Registry α) (name : String) (f : Namespace α → Namespace α) :
    Registry α :=
  { r with namespaces := r.namespaces.map fun ns => if ns.name = name then f ns else ns }

/-- The default gradient of an operator, if it has one. It is found by the number of the operator,
which only one registered operator has, and not carried along by every node that calls it. -/
def defaultGradient? (r : Registry α) (id : OperatorId) : Option (Transform α) :=
  (r.highLevel.find? (·.operator.id = id)).bind (·.defaultGradient)

/-- The policy in force for an operator. -/
def policy (r : Registry α) (o : Operator α) : Policy :=
  r.overrides.policyFor o.qualifiedName o.name

/-- The event of a new operator. -/
def operatorEvent (o : Operator α) : Event where
  level := .debug
  message := "registered operator"
  fields := [("namespace", o.space), ("operator", o.name)]

/-- The event of a new namespace. -/
def namespaceEvent (name version : String) : Event where
  level := .debug
  message := "registered executor namespace"
  fields := [("executor", name), ("version", version)]

/-- The event of a new rule. -/
def ruleEvent (rule : Rule α) : Event where
  level := .debug
  message := "registered substitution rule"
  fields := [("executor", rule.executor), ("target", rule.target.qualifiedName),
    ("priority", toString rule.priority), ("gradient", toString rule.gradient.isSome)]

/-- What is written to the journal when a registry is made. -/
def initialJournal (β : Type) [Scalar β] : Journal :=
  (Core.operators : List (Operator β)).map operatorEvent

open Journaled in
/-- Adds a namespace after all others. -/
def registerNamespace (name version : String) : Act (Journaled (Registry α)) Unit := do
  let r ← current
  Act.lift (ensure (r.namespace? name).isNone (.registry (.namespaceCollision name)))
  note (namespaceEvent name version)
  put { r with namespaces := r.namespaces ++ [.empty name version] }

open Journaled in
/-- Adds an operator to a namespace. -/
def registerOperator (space name : String) (signature : Signature)
    (outputTypes : Operands TensorType → Except Failure (List TensorType))
    (compute : Operands (Tensor α) → Except Failure (List (Tensor α))) :
    Act (Journaled (Registry α)) (Operator α) := do
  let r ← current
  let ns ← Act.lift (r.namespaceNamed space)
  Act.lift (ensure (ns.operator? name).isNone (.registry (.nameCollision space name)))
  let o : Operator α := ⟨⟨r.nextOperator⟩, space, name, signature, outputTypes, compute⟩
  note (operatorEvent o)
  put { r.modifyNamespace space (·.addOperator o) with nextOperator := r.nextOperator + 1 }
  return o

open Journaled in
/-- Adds an operator that may be substituted to a namespace. -/
def registerHighLevel (space name : String) (signature : Signature)
    (outputTypes : Operands TensorType → Except Failure (List TensorType))
    (compute : Operands (Tensor α) → Except Failure (List (Tensor α)))
    (defaultGradient : Option (Transform α)) :
    Act (Journaled (Registry α)) (HighLevelOp α) := do
  let o ← registerOperator space name signature outputTypes compute
  let op : HighLevelOp α := ⟨o, defaultGradient⟩
  let r ← current
  put { r with highLevel := r.highLevel ++ [op] }
  return op

open Journaled in
/-- Adds a rule to a namespace. -/
def registerRule (space : String) (s : Substitution α) :
    Act (Journaled (Registry α)) Unit := do
  let r ← current
  let ns ← Act.lift (r.namespaceNamed space)
  note (ruleEvent (ns.nextRule s))
  put (r.modifyNamespace space (·.addRule s))

end Registry

end TraceSubstitution
