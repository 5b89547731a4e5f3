import NesConsole.Cartridge.Mmc1
import NesConsole.Memory.PatternMemory
import NesConsole.Memory.Rom
/-! The boards: program and pattern memory behind the mapper that selects their banks. -/
namespace NesConsole

inductive Mapper where
  /-- Nothing is switched. -/
  | nrom
  | mmc1 (registers : Mmc1)
  /-- One program bank is switched, the last is fixed. -/
  | uxrom (bank : Nat)
  deriving DecidableEq, Repr, Inhabited

def Mapper.ofNumber? : Nat → Option Mapper
  | 0 => some .nrom
  | 1 => some (.mmc1 {})
  | 2 => some (.uxrom 0)
  | _ => none

inductive BoardEvent where
  | romWriteIgnored (address : UInt16) (data : UInt8)
  | registersSet (control chr0 chr1 prg : UInt8)
  | bankSelected (bank : Nat)
  | patternWriteIgnored (data : UInt8)
  deriving DecidableEq, Repr

structure Board where
  program : Rom
  patterns : PatternMemory
  mapper : Mapper
  deriving DecidableEq, Inhabited

namespace Board

def programBanks (b : Board) : Nat := Bank.count b.program.size 0x4000

def read? (b : Board) (address : UInt16) : Option UInt8 :=
  match b.mapper with
  | .nrom =>
    let window := if 0x4000 < b.program.size then 0x8000 else 0x4000
    b.program.get? (address.toNat % window)
  | .mmc1 m =>
    b.program.banked? (m.programBank (b.programBanks - 1) address) 0x4000 (address.toNat % 0x4000)
  | .uxrom bank =>
    let bank := if address < 0xC000 then bank else b.programBanks - 1
    b.program.banked? bank 0x4000 (address.toNat % 0x4000)

def write (address : UInt16) (data : UInt8) (b : Board) : Board :=
  match b.mapper with
  | .nrom => b
  | .mmc1 m => { b with mapper := .mmc1 (m.write address data) }
  | .uxrom _ => { b with mapper := .uxrom (data.toNat % b.programBanks) }

def writeEvents (address : UInt16) (data : UInt8) (b : Board) : List BoardEvent :=
  match b.mapper with
  | .nrom => [.romWriteIgnored address data]
  | .mmc1 m =>
    if m.completes data then
      let m := m.write address data
      [.registersSet m.control m.chr0 m.chr1 m.prg]
    else []
  | .uxrom _ => [.bankSelected (data.toNat % b.programBanks)]

/-- Bank, size of banks and offset in the pattern memory for a picture address. -/
def patternPlace (b : Board) (address : UInt16) : Nat × Nat × Nat :=
  match b.mapper with
  | .mmc1 m => (m.patternBank address, 0x1000, address.toNat % 0x1000)
  | _ => (0, 0x2000, address.toNat % 0x2000)

def readPattern? (b : Board) (address : UInt16) : Option UInt8 :=
  let (bank, bankSize, offset) := b.patternPlace address
  b.patterns.read? bank bankSize offset

def writePattern? (address : UInt16) (data : UInt8) (b : Board) : Option Board :=
  let (bank, bankSize, offset) := b.patternPlace address
  (b.patterns.write? bank bankSize offset data).map fun m => { b with patterns := m }

def patternWriteEvents (data : UInt8) (b : Board) : List BoardEvent :=
  if b.patterns.writable then [] else [.patternWriteIgnored data]

def workRamSize (b : Board) : Nat :=
  match b.mapper with
  | .uxrom _ => 0
  | _ => 0x2000

/-- The name tables that the mapper chooses; none leaves the choice to the header. -/
def mirroring? (b : Board) : Option Mirroring :=
  match b.mapper with
  | .mmc1 m => some m.mirroring
  | _ => none

end Board
end NesConsole
