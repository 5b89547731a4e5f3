import NesConsole.Ppu.Background
import NesConsole.Ppu.Beam
import NesConsole.Ppu.Control
import NesConsole.Ppu.MasterPalette
import NesConsole.Ppu.ScrollAddress
import NesConsole.Ppu.Sprites
/-! The picture unit: its registers, object memory, what is fetched ahead of the beam, and the
picture. The memory it draws from lies behind its bus. -/
namespace NesConsole

structure Ppu where
  control : Control := {}
  mask : Mask := {}
  status : PictureStatus := {}
  oamAddress : UInt8 := 0
  oam : ObjectMemory := Vector.replicate 256 0
  /-- The address in use, and the one that the scroll and address registers put together. -/
  v : ScrollAddress := {}
  t : ScrollAddress := {}
  fineX : Fin 8 := 0
  /-- Whether the next write to the scroll or address register is the second of its pair. -/
  secondWrite : Bool := false
  readBuffer : UInt8 := 0
  /-- The last byte written to any register. -/
  latch : UInt8 := 0
  /-- An interrupt raised by a write to the control register, reported by the next dot. -/
  nmiPending : Bool := false
  /-- The dot to be processed next. -/
  beam : Beam := ⟨Beam.preRenderLine, 0⟩
  oddFrame : Bool := false
  /-- Frames completed since power-up. -/
  frames : Nat := 0
  background : BackgroundQueue := []
  sprites : SpriteLine := .empty
  picture : Vector UInt32 (256 * 240) := Vector.replicate (256 * 240) 0
  deriving Inhabited

structure Tick where
  nmi : Bool := false
  frameComplete : Bool := false
  deriving DecidableEq, Repr, Inhabited

namespace Ppu

def reset (p : Ppu) : Ppu := { oam := p.oam, frames := p.frames, picture := p.picture }

/-- Replaces object memory by `block`, whose first byte goes to the current object address. -/
def writeObjects (block : ObjectMemory) (p : Ppu) : Ppu :=
  { p with oam := Vector.ofFn fun i =>
      have h := (UInt8.ofNat i.val - p.oamAddress).toNat_lt
      block[(UInt8.ofNat i.val - p.oamAddress).toNat] }

def stepAddress (p : Ppu) : Ppu :=
  { p with v := .ofNat (p.v.toNat + p.control.increment) }

end Ppu
end NesConsole
