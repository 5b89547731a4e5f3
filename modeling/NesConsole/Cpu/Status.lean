import NesConsole.Word
/-! The status register of the processor, flag by flag, and its byte form. -/
namespace NesConsole

structure Status where
  carry : Bool := false
  zero : Bool := false
  interruptDisable : Bool := false
  /-- Stored, but no operation computes in decimal. -/
  decimal : Bool := false
  /-- Set in the copies of the register that software pushes. -/
  brk : Bool := false
  /-- No flag is wired to bit 5, which reads as set. -/
  unused : Bool := false
  overflow : Bool := false
  negative : Bool := false
  deriving DecidableEq, Repr, Inhabited

namespace Status

def atReset : Status := { interruptDisable := true, unused := true }

def toByte (s : Status) : UInt8 :=
  bitValue s.carry 0 + bitValue s.zero 1 + bitValue s.interruptDisable 2 + bitValue s.decimal 3 +
  bitValue s.brk 4 + bitValue s.unused 5 + bitValue s.overflow 6 + bitValue s.negative 7

def ofByte (b : UInt8) : Status where
  carry := hasBit b 0
  zero := hasBit b 1
  interruptDisable := hasBit b 2
  decimal := hasBit b 3
  brk := hasBit b 4
  unused := hasBit b 5
  overflow := hasBit b 6
  negative := hasBit b 7

def pushedBySoftware (s : Status) : UInt8 := toByte { s with brk := true, unused := true }

def pushedByInterrupt (s : Status) : UInt8 := toByte { s with brk := false, unused := true }

def pulled (b : UInt8) : Status := { ofByte b with brk := false, unused := true }

@[simp] theorem ofByte_toByte (s : Status) : ofByte (toByte s) = s := by
  rcases s with ⟨_ | _, _ | _, _ | _, _ | _, _ | _, _ | _, _ | _, _ | _⟩ <;> decide

theorem pulled_pushedBySoftware (s : Status) :
    pulled (pushedBySoftware s) = { s with brk := false, unused := true } := by
  simp [pulled, pushedBySoftware]

theorem pulled_pushedByInterrupt (s : Status) :
    pulled (pushedByInterrupt s) = { s with brk := false, unused := true } := by
  simp [pulled, pushedByInterrupt]

end Status
end NesConsole
