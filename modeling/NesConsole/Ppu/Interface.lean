import NesConsole.Ppu.Basic
/-! The eight registers through which the processor reaches the picture unit. -/
namespace NesConsole
namespace Ppu

/-- The status register: three flags over the low bits of the latch. Reading ends the vertical
blank and any half-written pair. -/
def statusByte (p : Ppu) : UInt8 := p.status.toByte + p.latch % 32

def statusRead (p : Ppu) : Ppu :=
  { p with status := { p.status with vblank := false }, secondWrite := false }

/-- Letting interrupts through while the vertical blank lasts raises one at once. -/
def writeControl (data : UInt8) (p : Ppu) : Ppu :=
  let control : Control := ⟨data⟩
  { p with
    control := control
    t := { p.t with tableX := control.tableX, tableY := control.tableY }
    nmiPending := p.nmiPending ||
      (!p.control.raisesNmi && control.raisesNmi && p.status.vblank) }

def writeScroll (data : UInt8) (p : Ppu) : Ppu :=
  have h := data.toNat_lt
  let coarse : Fin 32 := ⟨data.toNat / 8, by omega⟩
  let fine : Fin 8 := ⟨data.toNat % 8, by omega⟩
  let p := { p with secondWrite := !p.secondWrite }
  if p.secondWrite then { p with t := { p.t with coarseX := coarse }, fineX := fine }
  else { p with t := { p.t with coarseY := coarse, fineY := fine } }

def writeAddress (data : UInt8) (p : Ppu) : Ppu :=
  let p := { p with secondWrite := !p.secondWrite }
  if p.secondWrite then
    { p with t := .ofNat (data.toNat % 64 * 256 + p.t.toNat % 256) }
  else
    let t := .ofNat (p.t.toNat / 256 * 256 + data.toNat)
    { p with t := t, v := t }

def writeObject (data : UInt8) (p : Ppu) : Ppu :=
  { p with
    oam := p.oam.set p.oamAddress.toNat data p.oamAddress.toNat_lt
    oamAddress := p.oamAddress + 1 }

def objectByte (p : Ppu) : UInt8 := p.oam.get ⟨p.oamAddress.toNat, p.oamAddress.toNat_lt⟩

section
variable {β : Type} [Bus β]

/-- The data register answers a read late, with the byte of the read before. Palette memory
answers at once, and what is kept for the next read comes from the name table below it. -/
def readData : EStateM BusError (Wired Ppu β) UInt8 := do
  let address ← Wired.look (·.v.busAddress)
  if 0x3F00 ≤ address then
    let below ← Wired.read (address - 0x1000)
    Wired.update fun p => { p with readBuffer := below }
    let byte ← Wired.read address
    Wired.update stepAddress
    return byte
  else
    let fresh ← Wired.read address
    let byte ← Wired.look (·.readBuffer)
    Wired.update fun p => stepAddress { p with readBuffer := fresh }
    return byte

def readRegister (address : UInt16) : EStateM BusError (Wired Ppu β) UInt8 := do
  match address.toNat % 8 with
  | 2 =>
    let byte ← Wired.look statusByte
    Wired.update statusRead
    return byte
  | 4 => Wired.look objectByte
  | 7 => readData
  | _ => Wired.look (·.latch)

def writeRegister (address : UInt16) (data : UInt8) : EStateM BusError (Wired Ppu β) Unit := do
  Wired.update fun p => { p with latch := data }
  match address.toNat % 8 with
  | 0 => Wired.update (writeControl data)
  | 1 => Wired.update fun p => { p with mask := ⟨data⟩ }
  | 2 => return
  | 3 => Wired.update fun p => { p with oamAddress := data }
  | 4 => Wired.update (writeObject data)
  | 5 => Wired.update (writeScroll data)
  | 6 => Wired.update (writeAddress data)
  | _ =>
    Wired.write (← Wired.look (·.v.busAddress)) data
    Wired.update stepAddress

end
end Ppu
end NesConsole
