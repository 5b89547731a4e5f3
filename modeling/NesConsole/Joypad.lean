import NesConsole.Word
/-! A joypad: a shift register that takes the buttons while its strobe is high and hands them out
one by one afterwards. -/
namespace NesConsole

structure Joypad where
  /-- Buttons held, in the order A, B, Select, Start, Up, Down, Left, Right from the lowest bit. -/
  held : UInt8 := 0
  shift : UInt8 := 0
  strobe : Bool := false
  deriving DecidableEq, Repr, Inhabited

namespace Joypad

def hold (buttons : UInt8) (j : Joypad) : Joypad := { j with held := buttons }

def write (data : UInt8) (j : Joypad) : Joypad :=
  let strobe := hasBit data 0
  { j with strobe := strobe, shift := if strobe then j.held else j.shift }

/-- Bit 6 comes from the open bus. While the strobe is high the register reloads and shows A;
after eight reads it shows ones. -/
def read (j : Joypad) : UInt8 × Joypad :=
  if j.strobe then (0x40 + j.held % 2, { j with shift := j.held })
  else (0x40 + j.shift % 2, { j with shift := j.shift / 2 + 0x80 })

end Joypad
end NesConsole
