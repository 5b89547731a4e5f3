import NesConsole.Cpu.Execution
import NesConsole.Cpu.TraceLine
/-! The processor, clocked a cycle at a time. An instruction runs whole on its first cycle and the
rest of its cycles pass idle, so accesses come instruction by instruction while the count of
cycles stays exact. A fault stays until reset. -/
namespace NesConsole

inductive CpuEvent where
  | reset (pc : UInt16)
  | halted (error : CpuError)
  | executing (line : TraceLine)
  deriving DecidableEq, Repr

/-- A bus that may also keep what the processor reports. -/
class CpuBus (β : Type) extends Bus β where
  /-- Whether instructions are reported before they run. -/
  tracing : β → Bool := fun _ => false
  report : CpuEvent → β → β := fun _ bus => bus

structure Cpu where
  registers : Registers := {}
  /-- Cycles since power-up. -/
  cycles : Nat := 0
  /-- Cycles until the next instruction or interrupt entry. -/
  remaining : Nat := 0
  nmiPending : Bool := false
  irqLine : Bool := false
  /-- What stopped the processor. -/
  fault : Option CpuError := none
  deriving DecidableEq, Repr, Inhabited

/-- Cycles of an interrupt entry, and of reset. -/
def interruptCycles : Nat := 7

/-- The count of cycles is 64 bits wide, that of cycles to wait 32 bits. -/
def cycleLimit : Nat := 0x10000000000000000
def waitLimit : Nat := 0x100000000

namespace Cpu

/-- A non-maskable interrupt waits for the next instruction boundary. -/
def nmi (c : Cpu) : Cpu := { c with nmiPending := true }

def setIrq (asserted : Bool) (c : Cpu) : Cpu := { c with irqLine := asserted }

def isJammed (c : Cpu) : Bool := c.fault.isSome

section
variable {β ε α : Type} [CpuBus β]

def access (act : EStateM BusError (Wired Cpu β) α) : EStateM CpuError (Wired Cpu β) α :=
  act.adaptExcept .bus

def onRegisters (act : Execution β α) : EStateM BusError (Wired Cpu β) α :=
  Wired.onPart (·.registers) (fun r c => { c with registers := r }) act

def tick : EStateM CpuError (Wired Cpu β) Unit := fun ⟨c, bus⟩ =>
  if c.cycles + 1 < cycleLimit then
    .ok () ⟨{ c with remaining := c.remaining - 1, cycles := c.cycles + 1 }, bus⟩
  else .error .counterFull ⟨c, bus⟩

def stall (cycles : Nat) : EStateM CpuError (Wired Cpu β) Unit := fun ⟨c, bus⟩ =>
  if c.remaining + cycles < waitLimit then
    .ok () ⟨{ c with remaining := c.remaining + cycles }, bus⟩
  else .error .counterFull ⟨c, bus⟩

def report (event : CpuEvent) : EStateM ε (Wired Cpu β) Unit := fun w =>
  .ok () { w with bus := CpuBus.report event w.bus }

def readBytes (address : UInt16) : Nat → EStateM BusError (Wired Cpu β) (List UInt8)
  | 0 => return []
  | n + 1 => do
    let byte ← Wired.read address
    return byte :: (← readBytes (address + 1) n)

/-- The instruction at the program counter with the registers before it runs. Its bytes are read
through the bus. -/
def traceLine : EStateM BusError (Wired Cpu β) TraceLine := do
  let c ← Wired.look id
  let opcode ← Wired.read c.registers.pc
  let count := ((Instruction.decode? opcode).map (·.mode.operandLength)).getD 0
  let operands ← readBytes (c.registers.pc + 1) count
  return ⟨c.registers.pc, opcode :: operands, c.registers, c.cycles⟩

def executeNext : EStateM CpuError (Wired Cpu β) Unit := do
  let address ← Wired.look (·.registers.pc)
  let opcode ← access (Wired.read address)
  match Instruction.decode? opcode with
  | none => throw (.illegalOpcode opcode address)
  | some i =>
    if CpuBus.tracing (← get).bus then
      report (.executing (← access traceLine))
    Wired.update fun c => { c with remaining := i.cycles }
    let extra ← access (onRegisters i.run)
    Wired.update fun c => { c with remaining := c.remaining + extra }

def interrupt (vector : UInt16) : EStateM CpuError (Wired Cpu β) Unit := do
  access (onRegisters (enterInterrupt vector))
  Wired.update fun c => { c with remaining := interruptCycles }

def serve : EStateM CpuError (Wired Cpu β) Unit := do
  let c ← Wired.look id
  if c.nmiPending then
    Wired.update fun c => { c with nmiPending := false }
    interrupt nmiVector
  else if c.irqLine && !c.registers.p.interruptDisable then
    interrupt irqVector
  else
    executeNext

def clock : EStateM CpuError (Wired Cpu β) Unit := fun w =>
  match w.chip.fault with
  | some error => .error error w
  | none =>
    if w.chip.remaining = 0 then
      match serve w with
      | .ok _ w => tick w
      | .error error ⟨c, bus⟩ =>
        .error error ⟨{ c with fault := some error }, CpuBus.report (.halted error) bus⟩
    else tick w

def clocks : Nat → EStateM CpuError (Wired Cpu β) Unit
  | 0 => return
  | n + 1 => do
    clock
    clocks n

/-- Finishes what is under way, then runs one instruction or interrupt entry and answers its
cycles. -/
def step : EStateM CpuError (Wired Cpu β) Nat := do
  clocks (← Wired.look (·.remaining))
  let start ← Wired.look (·.cycles)
  clock
  clocks (← Wired.look (·.remaining))
  return (← Wired.look (·.cycles)) - start

/-- Returns to the power-up registers and takes the program counter from its vector. Memory and
the count of cycles stay. -/
def reset : EStateM CpuError (Wired Cpu β) Unit := do
  let pc ← access (readWord resetVector)
  Wired.update fun c =>
    { registers := { pc := pc }, cycles := c.cycles, remaining := interruptCycles }
  report (.reset pc)

end
end Cpu
end NesConsole
