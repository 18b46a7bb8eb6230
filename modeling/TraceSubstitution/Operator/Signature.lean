import TraceSubstitution.Attr.Attrs

/-!
# Signatures

A `Signature` lists the operands of an operator in order, some of which may be
absent, and its static arguments with their kinds and defaults. A call is matched
with the signature in two steps: `checkOperands` looks at the operands, and
`bindAttrs` returns the static arguments with integers widened and defaults
filled in.
-/

namespace TraceSubstitution

/-- An operand of an operator. -/
structure TensorParam where
  /-- The name of the operand in messages. -/
  name : String
  /-- Whether the operand may be absent. -/
  optional : Bool

/-- A static argument of an operator. -/
structure AttrParam where
  /-- The name of the argument. -/
  name : String
  /-- The kind of its values. -/
  kind : AttrKind
  /-- Its value in calls that leave it out; a call must supply it if there is none. -/
  default : Option AttrValue

/-- The operands and static arguments of an operator. -/
structure Signature where
  /-- The operands, in order. -/
  tensors : List TensorParam
  /-- The static arguments. -/
  attrs : List AttrParam

namespace Signature

/-- The signature without operands and arguments. -/
def empty : Signature := ⟨[], []⟩

/-- Adds an operand that every call must supply. -/
def tensor (s : Signature) (name : String) : Signature :=
  { s with tensors := s.tensors ++ [⟨name, false⟩] }

/-- Adds an operand that a call may leave out. -/
def optionalTensor (s : Signature) (name : String) : Signature :=
  { s with tensors := s.tensors ++ [⟨name, true⟩] }

/-- Adds a static argument with a default. -/
def attr (s : Signature) (name : String) (kind : AttrKind) (default : AttrValue) : Signature :=
  { s with attrs := s.attrs ++ [⟨name, kind, some (default.widen kind)⟩] }

/-- Adds a static argument that every call must supply. -/
def requiredAttr (s : Signature) (name : String) (kind : AttrKind) : Signature :=
  { s with attrs := s.attrs ++ [⟨name, kind, none⟩] }

/-- Whether the signature declares a static argument called `name`. -/
def declares (s : Signature) (name : String) : Bool := s.attrs.any (·.name == name)

/-- Whether all operands that must be supplied are there, in number and one by one. -/
def checkOperands {τ : Type} (s : Signature) (op : String) (operands : List (Option τ)) :
    Except Failure Unit :=
  if operands.length ≠ s.tensors.length then
    .error (.ofCause (.signature (.tensorArity op s.tensors.length operands.length)))
  else
    match (s.tensors.zip operands).find? fun (p, x) => x.isNone && !p.optional with
    | some (p, _) => .error (.ofCause (.signature (.missingTensor op p.name)))
    | none => .ok ()

/-- The value of one static argument in a call. -/
def bindAttr (op : String) (attrs : Attrs) (p : AttrParam) : Except Failure AttrValue :=
  match attrs.get? p.name with
  | some v =>
    if p.kind.accepts v then .ok (v.widen p.kind)
    else .error (.ofCause (.signature (.attrKindMismatch op p.name p.kind v.kind)))
  | none => orError (.signature (.missingAttr op p.name)) p.default

/-- The static arguments of a call with defaults filled in. -/
def bindAttrs (s : Signature) (op : String) (attrs : Attrs) : Except Failure Attrs :=
  match attrs.toList.find? fun (name, _) => !s.declares name with
  | some (name, _) => .error (.ofCause (.signature (.unknownAttr op name)))
  | none => s.attrs.foldlM (fun bound p => return bound.insert p.name (← bindAttr op attrs p))
      Dict.empty

end Signature

end TraceSubstitution
