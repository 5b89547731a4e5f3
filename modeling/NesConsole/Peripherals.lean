import NesConsole.Joypad
/-! What the processor reaches at `$4000` to `$4017`: two joypads on one strobe, and the page that
an object transfer copies. Sound is left out: its registers swallow writes and read as zero. -/
namespace NesConsole

structure Peripherals where
  first : Joypad := {}
  second : Joypad := {}
  /-- The page of an object transfer not yet made. -/
  transfer : Option UInt8 := none
  deriving DecidableEq, Repr, Inhabited

namespace Peripherals

def transferAddress : UInt16 := 0x4014
def firstPadAddress : UInt16 := 0x4016
def secondPadAddress : UInt16 := 0x4017

def read (address : UInt16) (p : Peripherals) : UInt8 × Peripherals :=
  if address = firstPadAddress then
    let (byte, pad) := p.first.read
    (byte, { p with first := pad })
  else if address = secondPadAddress then
    let (byte, pad) := p.second.read
    (byte, { p with second := pad })
  else (0, p)

def isSound (address : UInt16) : Bool := address != transferAddress && address != firstPadAddress

def write (address : UInt16) (data : UInt8) (p : Peripherals) : Peripherals :=
  if address = transferAddress then { p with transfer := some data }
  else if address = firstPadAddress then
    { p with first := p.first.write data, second := p.second.write data }
  else p

def hold? (pad : Nat) (buttons : UInt8) (p : Peripherals) : Option Peripherals :=
  match pad with
  | 0 => some { p with first := p.first.hold buttons }
  | 1 => some { p with second := p.second.hold buttons }
  | _ => none

end Peripherals
end NesConsole
