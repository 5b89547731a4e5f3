import NesConsole.Text.Hex
/-! Why an access, a wiring request or an instruction is refused, each cause with its message. -/
namespace NesConsole

/-- Causes for which an address map refuses a range, or a bus an access. -/
inductive BusError where
  | invalidRange (first last : UInt16)
  | outOfRange (first last limit : UInt16)
  | overlap (address : UInt16)
  | unmapped (address : UInt16)
  /-- The device is reached, but its memory is too small to hold a byte at `address`. -/
  | noByte (address : UInt16)
  /-- A sum that leads to the access does not fit in 16 bits. -/
  | overflow
  deriving DecidableEq, Repr, Inhabited

def BusError.message : BusError → String
  | .invalidRange first last =>
    s!"range start ${Hex.word first} is past its end ${Hex.word last}"
  | .outOfRange first last limit =>
    s!"range ${Hex.word first}-${Hex.word last} exceeds the bus limit ${Hex.word limit}"
  | .overlap address => s!"address ${Hex.word address} is already owned by another device"
  | .unmapped address => s!"no device is mapped at ${Hex.word address}"
  | .noByte address => s!"no byte is present at ${Hex.word address}"
  | .overflow => "an address does not fit in 16 bits"

inductive CpuError where
  | illegalOpcode (opcode : UInt8) (address : UInt16)
  | bus (error : BusError)
  /-- A counter of the processor is at its end. -/
  | counterFull
  deriving DecidableEq, Repr, Inhabited

def CpuError.message : CpuError → String
  | .illegalOpcode opcode address =>
    s!"illegal opcode ${Hex.byte opcode} at ${Hex.word address}"
  | .bus error => error.message
  | .counterFull => "a counter of the processor is at its end"

end NesConsole
