import NesConsole.Proofs.BusAgreement

/-! A bus that records what is written on it. It shows the writes of a cycle of the processor, and
erasing the record gives the plain cycle back. What every access keeps, of the bus and its record,
a cycle keeps. -/
namespace NesConsole

structure Recorded (β : Type) where
  bus : β
  writes : List (UInt16 × UInt8) := []

namespace Recorded
variable {α β : Type}

def recording (written : List (UInt16 × UInt8)) (act : EStateM BusError β α) :
    EStateM BusError (Recorded β) α := fun ⟨bus, writes⟩ =>
  match act bus with
  | .ok a bus => .ok a ⟨bus, written ++ writes⟩
  | .error e bus => .error e ⟨bus, writes⟩

variable [CpuBus β]

instance : CpuBus (Recorded β) where
  read address := recording [] (Bus.read address)
  write address data := recording [(address, data)] (Bus.write address data)
  tracing r := CpuBus.tracing r.bus
  report event r := { r with bus := CpuBus.report event r.bus }

def Erases (r : Recorded β) (b : β) : Prop := r.bus = b

omit [CpuBus β] in
theorem agree_recording (written : List (UInt16 × UInt8)) (act : EStateM BusError β α) :
    Agree Erases (recording written act) act := by
  rintro ⟨b, writes⟩ _ rfl
  dsimp only [recording]
  cases act b <;> exact ⟨rfl, rfl⟩

omit [CpuBus β] in
theorem keeps_recording {P : Recorded β → Prop} {written : List (UInt16 × UInt8)}
    {act : EStateM BusError β α} (h : ∀ b writes, P ⟨b, writes⟩ → match act b with
      | .ok _ b' => P ⟨b', written ++ writes⟩
      | .error _ b' => P ⟨b', writes⟩) : Keeps P (recording written act) := by
  intro ⟨b, writes⟩ hb
  have hr := h b writes hb
  dsimp only [recording]
  cases hx : act b <;> rw [hx] at hr <;> exact hr

instance : CpuBusAgreement (Erases (β := β)) where
  read _ := agree_recording [] _
  write address data := agree_recording [(address, data)] _
  tracing _ _ h := congrArg CpuBus.tracing h
  report event _ _ h := congrArg (CpuBus.report event) h

end Recorded

namespace Cpu
section
variable {β : Type} [CpuBus β]

def recorder (w : Wired Cpu β) : Wired Cpu (Recorded β) := ⟨w.chip, ⟨w.bus, []⟩⟩

def recorded (w : Wired Cpu β) : Recorded β := (stateAfter clock (recorder w)).bus

def writes (w : Wired Cpu β) : List (UInt16 × UInt8) := (recorded w).writes.reverse

end
end Cpu

/-! ### What every access keeps -/

class BusKeeps {β : Type} [CpuBus β] (P : β → Prop) : Prop where
  read (address : UInt16) : Keeps P (Bus.read address : EStateM BusError β UInt8)
  write (address : UInt16) (data : UInt8) :
    Keeps P (Bus.write address data : EStateM BusError β Unit)
  report (event : CpuEvent) (b : β) : P b → P (CpuBus.report event b)

namespace BusKeeps
section
variable {α β : Type} {P : β → Prop}

def Twin (P : β → Prop) (b c : β) : Prop := b = c ∧ P b

theorem agree_twin {x : EStateM BusError β α} (h : Keeps P x) : Agree (Twin P) x x := by
  rintro b _ ⟨rfl, hb⟩
  have hr := h b hb
  cases hx : x b <;> rw [hx] at hr <;> exact ⟨rfl, rfl, hr⟩

variable [CpuBus β] [BusKeeps P]

instance : CpuBusAgreement (Twin P) where
  read address := agree_twin (BusKeeps.read address)
  write address data := agree_twin (BusKeeps.write address data)
  tracing _ _ h := congrArg CpuBus.tracing h.1
  report event b _ h := ⟨congrArg _ h.1, BusKeeps.report event b h.2⟩

/-- What every access keeps is kept by a cycle. -/
theorem clock : Keeps (fun w : Wired Cpu β => P w.bus) Cpu.clock := by
  intro w hw
  have hr := Agree.clock (R := Twin P) w w ⟨rfl, rfl, hw⟩
  cases hx : Cpu.clock w <;> rw [hx] at hr <;> exact hr.2.2.2

end

theorem recorded {β : Type} [CpuBus β] {P : Recorded β → Prop} [BusKeeps P] {w : Wired Cpu β}
    (h : P ⟨w.bus, []⟩) : P (Cpu.recorded w) :=
  Keeps.stateAfter clock (s := Cpu.recorder w) h

end BusKeeps

end NesConsole
