import NesConsole.Cpu.Addressing
/-! What an instruction does once its operand is resolved: accesses at the operand, the stack, and
the program counter. -/
namespace NesConsole

def nmiVector : UInt16 := 0xFFFA
def resetVector : UInt16 := 0xFFFC
def irqVector : UInt16 := 0xFFFE

def stackAddress (sp : UInt8) : UInt16 := wordOf sp 1

def branchTarget (pc : UInt16) (offset : UInt8) : UInt16 :=
  if hasBit offset 7 then pc + offset.toUInt16 - 256 else pc + offset.toUInt16

section
variable {β : Type} [Bus β]

def Operand.load : Operand → Execution β UInt8
  | .memory address => Wired.read address
  | _ => Wired.look (·.a)

def Operand.store (data : UInt8) : Operand → Execution β Unit
  | .memory address => Wired.write address data
  | _ => Wired.update fun r => { r with a := data }

def push (data : UInt8) : Execution β Unit := do
  Wired.write (stackAddress (← Wired.look (·.sp))) data
  Wired.update fun r => { r with sp := r.sp - 1 }

def pull : Execution β UInt8 := do
  Wired.update fun r => { r with sp := r.sp + 1 }
  Wired.read (stackAddress (← Wired.look (·.sp)))

def pushWord (w : UInt16) : Execution β Unit := do
  push (highByte w)
  push (lowByte w)

def pullWord : Execution β UInt16 := do
  let low ← pull
  let high ← pull
  return wordOf low high

def jump (address : UInt16) : Execution β Unit := Wired.update fun r => { r with pc := address }

def Operand.target (r : Registers) : Operand → UInt16
  | .memory address => address
  | _ => r.pc

def BranchOp.run (op : BranchOp) (operand : Operand) : Execution β Nat := do
  let r ← Wired.look id
  match operand with
  | .displacement offset =>
    if op.holds r.p then
      let target := branchTarget r.pc offset
      jump target
      return if samePage r.pc target then 1 else 2
    else return 0
  | _ => return 0

def FlowOp.run (op : FlowOp) (operand : Operand) : Execution β Unit := do
  match op with
  | .pha => push (← Wired.look (·.a))
  | .php => push (← Wired.look (·.p.pushedBySoftware))
  | .pla =>
    let v ← pull
    Wired.update (Registers.loadA v)
  | .plp =>
    let v ← pull
    Wired.update fun r => { r with p := .pulled v }
  | .jmp => jump (← Wired.look operand.target)
  | .jsr =>
    pushWord ((← Wired.look (·.pc)) - 1)
    jump (← Wired.look operand.target)
  | .rts => jump ((← pullWord) + 1)
  | .brk =>
    -- The byte after the opcode is padding.
    pushWord ((← Wired.look (·.pc)) + 1)
    push (← Wired.look (·.p.pushedBySoftware))
    Wired.update fun r => { r with p := { r.p with interruptDisable := true } }
    jump (← readWord irqVector)
  | .rti =>
    let v ← pull
    Wired.update fun r => { r with p := .pulled v }
    jump (← pullWord)

/-- Runs an operation and answers the cycles that a branch adds. -/
def Operation.run (op : Operation) (operand : Operand) : Execution β Nat := do
  match op with
  | .read op =>
    let v ← operand.load
    Wired.update fun r => op.apply v r
    return 0
  | .store op =>
    operand.store (← Wired.look fun r => op.source r)
    return 0
  | .modify op =>
    let v ← operand.load
    let (changed, r) ← Wired.look fun r => op.change v r
    Wired.update fun _ => r
    operand.store changed
    Wired.update fun r => op.finish changed r
    return 0
  | .register op =>
    Wired.update fun r => op.apply r
    return 0
  | .branch op => op.run operand
  | .flow op =>
    op.run operand
    return 0

/-- Runs an instruction whose opcode has been read at the program counter, and answers the cycles
it takes beyond its base cost. -/
def Instruction.run (i : Instruction) : Execution β Nat := do
  Wired.update fun r => { r with pc := r.pc + 1, p := { r.p with unused := true } }
  let ⟨operand, crossed⟩ ← i.mode.resolve
  let extra ← i.operation.run operand
  return if crossed && i.operation.pagePenalty then extra + 1 else extra

def enterInterrupt (vector : UInt16) : Execution β Unit := do
  pushWord (← Wired.look (·.pc))
  push (← Wired.look (·.p.pushedByInterrupt))
  Wired.update fun r => { r with p := { r.p with interruptDisable := true } }
  jump (← readWord vector)

end
end NesConsole
