import NesConsole.Peripherals
import NesConsole.Ppu.Dot
import NesConsole.Ppu.Interface
import NesConsole.VideoBus
/-! The bus of the processor, with everything on it: work RAM, the picture unit and its bus, the
peripherals, and the cartridge. -/
namespace NesConsole

inductive MainDevice where
  | ram
  /-- The work RAM seen again from `base` on. -/
  | ramAgain (base : UInt16)
  | picture
  | peripherals
  | cartridge
  deriving DecidableEq, Repr, Inhabited

def MainDevice.name : MainDevice → String
  | .ram => "Ram"
  | .ramAgain base => s!"RamMirror \x7b base: {base} \x7d"
  | .picture => "PpuRegisters"
  | .peripherals => "Io"
  | .cartridge => "Cartridge"

/-- No device answers at `$4018` to `$401F`, the test window of the processor. -/
def mainMap : AddressMap MainDevice where
  limit := 0xFFFF
  windows := [⟨.ram, 0x0000, 0x07FF⟩, ⟨.ramAgain 0x0800, 0x0800, 0x0FFF⟩,
    ⟨.ramAgain 0x1000, 0x1000, 0x17FF⟩, ⟨.ramAgain 0x1800, 0x1800, 0x1FFF⟩,
    ⟨.picture, 0x2000, 0x3FFF⟩, ⟨.peripherals, 0x4000, 0x4017⟩, ⟨.cartridge, 0x4020, 0xFFFF⟩]

structure MainBus where
  ram : Ram 0x800
  peripherals : Peripherals := {}
  video : VideoBus
  picture : Ppu := {}

namespace MainBus

def wiringEvents : List Event :=
  mainMap.windows.map (fun w => .connected w.owner.name w.first w.last) ++
  videoMap.windows.map (fun w => .connected w.owner.name w.first w.last)

def wire (cartridge : Cartridge) (journal : Journal) : MainBus where
  ram := .blank 0x800 ⟨11, rfl⟩
  video :=
    { cartridge := cartridge
      nameTables := .blank cartridge.mirroring
      journal := journal.noteAll wiringEvents }

def note (es : List Event) (bus : MainBus) : MainBus := { bus with video := bus.video.note es }

@[inline] def onPicture {α : Type} (act : EStateM BusError (Wired Ppu VideoBus) α) :
    EStateM BusError MainBus α := fun ⟨ram, peripherals, video, picture⟩ =>
  match act ⟨picture, video⟩ with
  | .ok a w => .ok a ⟨ram, peripherals, w.bus, w.chip⟩
  | .error e w => .error e ⟨ram, peripherals, w.bus, w.chip⟩

def read (address : UInt16) : EStateM BusError MainBus UInt8 := fun bus =>
  match mainMap.owner? address with
  | none => .error (.unmapped address) bus
  | some .ram => .ok (bus.ram.read address.toNat) bus
  | some (.ramAgain base) => .ok (bus.ram.read (rebased base address).toNat) bus
  | some .picture => onPicture (Ppu.readRegister address) bus
  | some .peripherals =>
    let (byte, peripherals) := bus.peripherals.read address
    .ok byte { bus with peripherals := peripherals }
  | some .cartridge =>
    match bus.video.cartridge.read? address with
    | some byte => .ok byte bus
    | none => .error (.noByte address) bus

def writeCartridge (address : UInt16) (data : UInt8) (bus : MainBus) : MainBus :=
  let events := bus.video.cartridge.writeEvents address data
  let cartridge := bus.video.cartridge.write address data
  let nameTables := bus.video.nameTables.setMirroring cartridge.mirroring
  let video := { bus.video with cartridge := cartridge, nameTables := nameTables }
  { bus with video := video.note (events.map .cartridge) }

def write (address : UInt16) (data : UInt8) : EStateM BusError MainBus Unit := fun bus =>
  match mainMap.owner? address with
  | none => .error (.unmapped address) bus
  | some .ram => .ok () { bus with ram := bus.ram.write address.toNat data }
  | some (.ramAgain base) =>
    .ok () { bus with ram := bus.ram.write (rebased base address).toNat data }
  | some .picture => onPicture (Ppu.writeRegister address data) bus
  | some .peripherals =>
    let events := if Peripherals.isSound address then [.soundWriteIgnored address data] else []
    .ok () (note events { bus with peripherals := bus.peripherals.write address data })
  | some .cartridge => .ok () (writeCartridge address data bus)

instance : CpuBus MainBus where
  read := read
  write := write
  tracing bus := bus.video.journal.keeps .trace
  report event := note [.cpu event]

def stepDot : EStateM BusError MainBus Tick := onPicture Ppu.step

def takeTransfer : EStateM BusError MainBus (Option UInt8) := fun bus =>
  .ok bus.peripherals.transfer { bus with peripherals := { bus.peripherals with transfer := none } }

def readBlock (address : UInt16) : (n : Nat) → EStateM BusError MainBus (List UInt8)
  | 0 => return []
  | n + 1 => do
    let byte ← read address
    return byte :: (← readBlock (address + 1) n)

/-- Copies a page into object memory. A page that cannot be read whole leaves it as it is. -/
def transferObjects (page : UInt8) : EStateM BusError MainBus Unit := do
  modify (note [.objectTransfer (wordOf 0 page)])
  let block := (← readBlock (wordOf 0 page) 256).toArray
  modify fun bus =>
    { bus with picture := bus.picture.writeObjects (Vector.ofFn fun i => block.getD i.val 0) }

def reset (bus : MainBus) : MainBus :=
  { bus with
    picture := bus.picture.reset
    peripherals := { bus.peripherals with transfer := none } }

end MainBus
end NesConsole
