import NesConsole.Bus
import NesConsole.Cpu.Instruction
/-! Fetching an instruction's operand: which bytes each addressing mode reads, and where the
operand lies afterwards. -/
namespace NesConsole

abbrev Execution (β : Type) := EStateM BusError (Wired Registers β)

inductive Operand where
  | implied
  | accumulator
  | memory (address : UInt16)
  /-- A branch displacement in two's complement. -/
  | displacement (offset : UInt8)
  deriving DecidableEq, Repr, Inhabited

/-- An operand, and whether indexing left the page of its base address. -/
structure Resolved where
  operand : Operand
  crossed : Bool := false
  deriving DecidableEq, Repr, Inhabited

def Resolved.indexed (base : UInt16) (index : UInt8) : Resolved where
  operand := .memory (base + index.toUInt16)
  crossed := !samePage base (base + index.toUInt16)

section
variable {κ β : Type} [Bus β]

def readWord (address : UInt16) : EStateM BusError (Wired κ β) UInt16 := do
  let low ← Wired.read address
  let high ← Wired.read (address + 1)
  return wordOf low high

def readZeroPageWord (pointer : UInt8) : EStateM BusError (Wired κ β) UInt16 := do
  let low ← Wired.read pointer.toUInt16
  let high ← Wired.read (pointer + 1).toUInt16
  return wordOf low high

/-- The word at `pointer`, whose high byte comes from the same page. -/
def readPageWord (pointer : UInt16) : EStateM BusError (Wired κ β) UInt16 := do
  let low ← Wired.read pointer
  let high ← Wired.read (wordOf (lowByte pointer + 1) (highByte pointer))
  return wordOf low high

def advance : Execution β Unit := Wired.update fun r => { r with pc := r.pc + 1 }

def fetchByte : Execution β UInt8 := do
  let byte ← Wired.read (← Wired.look (·.pc))
  advance
  return byte

def fetchWord : Execution β UInt16 := do
  let low ← fetchByte
  let high ← fetchByte
  return wordOf low high

/-- Reads the operand bytes at the program counter and the pointers they name. An immediate
operand is left unread at its address. -/
def AddressingMode.resolve (mode : AddressingMode) : Execution β Resolved := do
  match mode with
  | .implied => return ⟨.implied, false⟩
  | .accumulator => return ⟨.accumulator, false⟩
  | .immediate =>
    let address ← Wired.look (·.pc)
    advance
    return ⟨.memory address, false⟩
  | .relative => return ⟨.displacement (← fetchByte), false⟩
  | .zeroPage => return ⟨.memory (← fetchByte).toUInt16, false⟩
  | .zeroPageX =>
    let base ← fetchByte
    return ⟨.memory (base + (← Wired.look (·.x))).toUInt16, false⟩
  | .zeroPageY =>
    let base ← fetchByte
    return ⟨.memory (base + (← Wired.look (·.y))).toUInt16, false⟩
  | .absolute => return ⟨.memory (← fetchWord), false⟩
  | .absoluteX =>
    let base ← fetchWord
    return .indexed base (← Wired.look (·.x))
  | .absoluteY =>
    let base ← fetchWord
    return .indexed base (← Wired.look (·.y))
  | .indirect =>
    let pointer ← fetchWord
    return ⟨.memory (← readPageWord pointer), false⟩
  | .indexedIndirect =>
    let base ← fetchByte
    let pointer := base + (← Wired.look (·.x))
    return ⟨.memory (← readZeroPageWord pointer), false⟩
  | .indirectIndexed =>
    let base ← readZeroPageWord (← fetchByte)
    return .indexed base (← Wired.look (·.y))

end
end NesConsole
