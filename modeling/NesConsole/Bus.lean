import NesConsole.Fault
/-! A chip and the bus it drives. An access runs on the state of the bus and may be refused; a
refusal keeps what was done before it. -/
namespace NesConsole

/-- Byte access to the address space behind a bus of state `β`. Reading may change the state. -/
class Bus (β : Type) where
  read : UInt16 → EStateM BusError β UInt8
  write : UInt16 → UInt8 → EStateM BusError β Unit

structure Wired (κ β : Type) where
  chip : κ
  bus : β

namespace Wired
variable {κ κ' β ε α : Type}

@[inline] def onBus (act : EStateM ε β α) : EStateM ε (Wired κ β) α := fun ⟨chip, bus⟩ =>
  match act bus with
  | .ok a bus => .ok a ⟨chip, bus⟩
  | .error e bus => .error e ⟨chip, bus⟩

@[inline] def update (f : κ → κ) : EStateM ε (Wired κ β) Unit := fun ⟨chip, bus⟩ =>
  .ok () ⟨f chip, bus⟩

@[inline] def look (f : κ → α) : EStateM ε (Wired κ β) α := fun w => .ok (f w.chip) w

@[inline] def onPart (get : κ → κ') (put : κ' → κ → κ) (act : EStateM ε (Wired κ' β) α) :
    EStateM ε (Wired κ β) α := fun ⟨chip, bus⟩ =>
  match act ⟨get chip, bus⟩ with
  | .ok a w => .ok a ⟨put w.chip chip, w.bus⟩
  | .error e w => .error e ⟨put w.chip chip, w.bus⟩

variable [Bus β]

@[inline] def read (address : UInt16) : EStateM BusError (Wired κ β) UInt8 :=
  onBus (Bus.read address)

@[inline] def write (address : UInt16) (data : UInt8) : EStateM BusError (Wired κ β) Unit :=
  onBus (Bus.write address data)

end Wired
end NesConsole
