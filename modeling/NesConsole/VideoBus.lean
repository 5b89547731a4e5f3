import NesConsole.AddressMap
import NesConsole.Journal
import NesConsole.Memory.PaletteMemory
/-! The bus of the picture unit: patterns from the cartridge, name tables and palette memory of
the console, over 14 address lines. -/
namespace NesConsole

inductive VideoDevice where
  | patterns
  | nameTables
  /-- The name tables once more, cut short by palette memory. -/
  | nameTablesAgain
  | palette
  deriving DecidableEq, Repr, Inhabited

def VideoDevice.name : VideoDevice → String
  | .patterns => "PatternTables"
  | .nameTables => "NameTables"
  | .nameTablesAgain => "NameTablesMirror"
  | .palette => "Palette"

def videoMap : AddressMap VideoDevice where
  limit := 0x3FFF
  windows := [⟨.patterns, 0x0000, 0x1FFF⟩, ⟨.nameTables, 0x2000, 0x2FFF⟩,
    ⟨.nameTablesAgain, 0x3000, 0x3EFF⟩, ⟨.palette, 0x3F00, 0x3FFF⟩]

structure VideoBus where
  cartridge : Cartridge
  nameTables : NameTables
  palette : PaletteMemory := .blank
  journal : Journal := {}

namespace VideoBus

def note (es : List Event) (bus : VideoBus) : VideoBus :=
  { bus with journal := bus.journal.noteAll es }

/-- The byte at an address; no device behind this bus changes when read. -/
def read (address : UInt16) (bus : VideoBus) : Except BusError UInt8 :=
  let address := address % 0x4000
  match videoMap.owner? address with
  | none => .error (.unmapped address)
  | some .patterns =>
    match bus.cartridge.readPattern? address with
    | some byte => .ok byte
    | none => .error (.noByte address)
  | some .nameTables => .ok (bus.nameTables.read address)
  | some .nameTablesAgain => .ok (bus.nameTables.read (rebased 0x1000 address))
  | some .palette => .ok (bus.palette.read address)

def write (address : UInt16) (data : UInt8) : EStateM BusError VideoBus Unit := fun bus =>
  let address := address % 0x4000
  match videoMap.owner? address with
  | none => .error (.unmapped address) bus
  | some .patterns =>
    match bus.cartridge.writePattern? address data with
    | some cartridge =>
      let events := bus.cartridge.patternWriteEvents data
      .ok () (note (events.map .cartridge) { bus with cartridge := cartridge })
    | none => .error (.noByte address) bus
  | some .nameTables => .ok () { bus with nameTables := bus.nameTables.write address data }
  | some .nameTablesAgain =>
    .ok () { bus with nameTables := bus.nameTables.write (rebased 0x1000 address) data }
  | some .palette => .ok () { bus with palette := bus.palette.write address data }

instance : Bus VideoBus where
  read address := fun bus =>
    match bus.read address with
    | .ok byte => .ok byte bus
    | .error e => .error e bus
  write := write

end VideoBus
end NesConsole
