import TraceSubstitution.Flash.Config
import TraceSubstitution.Registry.Rule

/-!
# Calls that the fused kernel takes over

The fused kernel takes over a call of attention if it is there, if query, key and
value have four axes, a supported width and the configured element type, if there
is neither a mask nor dropout, and if all three live on one device of the
configured kind.
-/

namespace TraceSubstitution

namespace Flash

/-- Whether the kernel can read an operand of this type. -/
def admitsOperand (c : FlashConfig) (type : TensorType) : Bool :=
  type.rank = 4 && type.shape.lastDim?.any c.supportsHeadDim && type.dtype = c.dtype

/-- Whether a call leaves out dropout. -/
def withoutDropout (attrs : Attrs) : Bool :=
  match attrs.float "dropout_p" with
  | .ok p => p == 0
  | .error _ => false

/-- Whether the kernel takes over a call of attention. -/
def admits (c : FlashConfig) (available : Bool) (args : Operands Symbol) : Bool :=
  match args.optional 0, args.optional 1, args.optional 2 with
  | some query, some key, some value =>
    available && [query, key, value].all (admitsOperand c ·.type)
      && (args.optional 3).isNone && withoutDropout args.attrs
      && query.type.device.kind = c.deviceKind
      && key.type.device = query.type.device && value.type.device = query.type.device
  | _, _, _ => false

/-- The checker of the fused executor. -/
def checker (c : FlashConfig) (available : Bool) : Checker := fun args =>
  .ok (admits c available args)

end Flash

end TraceSubstitution
