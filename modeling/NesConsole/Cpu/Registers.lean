import NesConsole.Cpu.Status
/-! The registers of the processor and its arithmetic on them. -/
namespace NesConsole

structure Registers where
  a : UInt8 := 0
  x : UInt8 := 0
  y : UInt8 := 0
  sp : UInt8 := 0xFD
  pc : UInt16 := 0
  p : Status := .atReset
  deriving DecidableEq, Repr, Inhabited

namespace Registers

def flag (v : UInt8) (r : Registers) : Registers :=
  { r with p := { r.p with zero := v == 0, negative := hasBit v 7 } }

def loadA (v : UInt8) (r : Registers) : Registers := flag v { r with a := v }
def loadX (v : UInt8) (r : Registers) : Registers := flag v { r with x := v }
def loadY (v : UInt8) (r : Registers) : Registers := flag v { r with y := v }

def setCarry (c : Bool) (r : Registers) : Registers := { r with p := { r.p with carry := c } }

/-- Binary addition with carry. Overflow: the terms share a sign which the sum has not. -/
def add (v : UInt8) (r : Registers) : Registers :=
  let sum := r.a.toNat + v.toNat + r.p.carry.toNat
  let result := UInt8.ofNat sum
  loadA result { r with p := { r.p with
    carry := decide (255 < sum)
    overflow := hasBit ((r.a ^^^ result) &&& (v ^^^ result)) 7 } }

/-- Subtraction adds the complement, so a clear carry is a borrow. -/
def subtract (v : UInt8) (r : Registers) : Registers := add (v ^^^ 0xFF) r

def compare (register v : UInt8) (r : Registers) : Registers :=
  flag (register - v) (setCarry (decide (v ≤ register)) r)

def testBits (v : UInt8) (r : Registers) : Registers :=
  { r with p := { r.p with
    zero := r.a &&& v == 0, overflow := hasBit v 6, negative := hasBit v 7 } }

def shiftLeft (v : UInt8) (low : Bool) : UInt8 := v <<< 1 ||| bitValue low 0
def shiftRight (v : UInt8) (high : Bool) : UInt8 := v >>> 1 ||| bitValue high 7

end Registers
end NesConsole
