/-!
# Devices

A tensor lives on a device: a kind of hardware and the ordinal of one piece of
it, written `cuda:1`.
-/

namespace TraceSubstitution

/-- The kinds of hardware a tensor may live on. -/
inductive DeviceKind where
  | cpu
  | cuda
deriving DecidableEq

namespace DeviceKind

/-- The name of the kind in messages, traces and configuration texts. -/
def text : DeviceKind → String
  | cpu => "cpu"
  | cuda => "cuda"

/-- All kinds of hardware. -/
def all : List DeviceKind := [cpu, cuda]

/-- The kind called `name`, if there is one. -/
def ofText? (name : String) : Option DeviceKind := all.find? (·.text = name)

@[simp] theorem ofText?_text (k : DeviceKind) : ofText? k.text = some k := by
  cases k <;> decide

end DeviceKind

/-- A kind of hardware and an ordinal. -/
structure Device where
  /-- The kind of hardware. -/
  kind : DeviceKind
  /-- Which piece of hardware of that kind. -/
  index : UInt32
deriving DecidableEq

namespace Device

/-- The device a tensor lives on unless it is placed elsewhere. -/
def host : Device := ⟨.cpu, 0⟩

/-- The device as it is written in messages and traces: `cuda:1`. -/
def text (d : Device) : String := d.kind.text ++ ":" ++ toString d.index.toNat

end Device

end TraceSubstitution
