import NesConsole.Word
/-! The control, mask and status registers of the picture unit. -/
namespace NesConsole

structure Control where
  byte : UInt8 := 0
  deriving DecidableEq, Repr, Inhabited

namespace Control

def tableX (c : Control) : Fin 2 := ⟨c.byte.toNat % 2, Nat.mod_lt _ (by decide)⟩
def tableY (c : Control) : Fin 2 := ⟨c.byte.toNat / 2 % 2, Nat.mod_lt _ (by decide)⟩

/-- How far a data access moves the address: one byte across, or one row of tiles down. -/
def increment (c : Control) : Nat := if hasBit c.byte 2 then 32 else 1

/-- Pattern table of sprites eight rows tall; taller ones choose their own. -/
def spriteTable (c : Control) : UInt16 := if hasBit c.byte 3 then 0x1000 else 0

def backgroundTable (c : Control) : UInt16 := if hasBit c.byte 4 then 0x1000 else 0

def spriteHeight (c : Control) : Nat := if hasBit c.byte 5 then 16 else 8

def raisesNmi (c : Control) : Bool := hasBit c.byte 7

end Control

structure Mask where
  byte : UInt8 := 0
  deriving DecidableEq, Repr, Inhabited

namespace Mask

def greyscale (m : Mask) : Bool := hasBit m.byte 0
def showsBackground (m : Mask) : Bool := hasBit m.byte 3
def showsSprites (m : Mask) : Bool := hasBit m.byte 4

/-- With both layers off nothing is fetched and the scroll address rests. -/
def rendering (m : Mask) : Bool := m.showsBackground || m.showsSprites

def showsBackgroundAt (m : Mask) (x : Nat) : Bool :=
  m.showsBackground && (decide (8 ≤ x) || hasBit m.byte 1)
def showsSpritesAt (m : Mask) (x : Nat) : Bool :=
  m.showsSprites && (decide (8 ≤ x) || hasBit m.byte 2)

end Mask

structure PictureStatus where
  spriteOverflow : Bool := false
  spriteZeroHit : Bool := false
  vblank : Bool := false
  deriving DecidableEq, Repr, Inhabited

def PictureStatus.toByte (s : PictureStatus) : UInt8 :=
  bitValue s.spriteOverflow 5 + bitValue s.spriteZeroHit 6 + bitValue s.vblank 7

end NesConsole
