import NesConsole.Cartridge.Basic
import NesConsole.Cpu.Clock
/-! The journal: what the parts of the console report, each report with a level, the part it comes
from and its text, down to a chosen level. -/
namespace NesConsole

/-- Levels from the gravest down. -/
inductive Level where
  | error
  | warn
  | info
  | debug
  | trace
  deriving DecidableEq, Repr, Inhabited

def Level.rank : Level → Nat
  | .error => 1
  | .warn => 2
  | .info => 3
  | .debug => 4
  | .trace => 5

inductive ConsoleError where
  | load (error : LoadError)
  | cpu (error : CpuError)
  | bus (error : BusError)
  deriving DecidableEq, Repr, Inhabited

def ConsoleError.message : ConsoleError → String
  | .load e => e.message
  | .cpu e => e.message
  | .bus e => e.message

inductive Event where
  | cpu (event : CpuEvent)
  | cartridge (event : CartridgeEvent)
  | connected (device : String) (first last : UInt16)
  | objectTransfer (source : UInt16)
  | soundWriteIgnored (address : UInt16) (data : UInt8)
  | noJoypad (pad : Nat)
  | loadFailed (path : String) (error : ConsoleError)
  | stopped (error : ConsoleError)
  | noDisplay
  | finished (frames cycles : Nat)
  deriving DecidableEq, Repr

def CpuEvent.level : CpuEvent → Level
  | .reset _ => .info
  | .halted _ => .error
  | .executing _ => .trace

def CpuEvent.message : CpuEvent → String
  | .reset pc => s!"CPU reset, PC=${Hex.word pc}"
  | .halted error => s!"CPU halted: {error.message}"
  | .executing line => line.render

def SaveEvent.level : SaveEvent → Level
  | .restored _ => .info
  | _ => .warn

def SaveEvent.message : SaveEvent → String
  | .restored path => s!"loaded save RAM from {path}"
  | .wrongSize path expected found =>
    s!"ignoring {path}: expected {expected} bytes, found {found}"
  | .unreadable path error => s!"error reading {path}: {error.message}"
  | .unwritable path error => s!"error writing {path}: {error.message}"

def BoardEvent.level : BoardEvent → Level
  | .romWriteIgnored .. => .warn
  | .patternWriteIgnored _ => .trace
  | _ => .debug

def BoardEvent.message : BoardEvent → String
  | .romWriteIgnored address data =>
    s!"write ${Hex.byte data} to NROM PRG ROM at ${Hex.word address} ignored"
  | .registersSet control chr0 chr1 prg =>
    s!"MMC1: control ${Hex.byte control} chr ${Hex.byte chr0}/${Hex.byte chr1} " ++
    s!"prg ${Hex.byte prg}"
  | .bankSelected bank => s!"UxROM: PRG bank {bank}"
  | .patternWriteIgnored data => s!"ignored CHR ROM write ${Hex.byte data}"

def BoardEvent.target : BoardEvent → String
  | .romWriteIgnored .. => "famicore::cartridge::mapper::mapper0"
  | .registersSet .. => "famicore::cartridge::mapper::mapper1"
  | .bankSelected _ => "famicore::cartridge::mapper::mapper2"
  | .patternWriteIgnored _ => "famicore::cartridge::mapper"

def CartridgeEvent.level : CartridgeEvent → Level
  | .save event => event.level
  | .noSaveFile => .warn
  | .loaded .. => .info
  | .board event => event.level
  | .expansionWriteIgnored .. => .trace

def CartridgeEvent.message : CartridgeEvent → String
  | .save event => event.message
  | .noSaveFile => "battery RAM has no backing file; saves will be lost"
  | .loaded h patternRam =>
    let patterns := if patternRam then s!"{PatternMemory.ramSize / 1024} KiB CHR RAM"
      else s!"{h.patternLength / 1024} KiB CHR"
    s!"loaded mapper {h.mapper} ({h.programLength / 1024} KiB PRG, {patterns}), " ++
    s!"{h.mirroring.name} mirroring" ++ if h.battery then ", battery" else ""
  | .board event => event.message
  | .expansionWriteIgnored address data =>
    s!"expansion write ${Hex.byte data} at ${Hex.word address} ignored"

def CartridgeEvent.target : CartridgeEvent → String
  | .save _ => "famicore::memory::battery"
  | .board event => event.target
  | _ => "famicore::cartridge::cartridge"

namespace Event

def level : Event → Level
  | .cpu event => event.level
  | .cartridge event => event.level
  | .connected .. => .debug
  | .objectTransfer _ => .debug
  | .soundWriteIgnored .. => .trace
  | .noJoypad _ => .warn
  | .loadFailed .. => .error
  | .stopped _ => .error
  | .noDisplay => .error
  | .finished .. => .info

def message : Event → String
  | .cpu event => event.message
  | .cartridge event => event.message
  | .connected device first last => s!"bus: {device} at ${Hex.word first}-${Hex.word last}"
  | .objectTransfer source => s!"OAM DMA from ${Hex.word source}"
  | .soundWriteIgnored address data =>
    s!"APU write ${Hex.byte data} to ${Hex.word address} ignored"
  | .noJoypad pad => s!"no controller port {pad}"
  | .loadFailed path error => s!"{path}: {error.message}"
  | .stopped error => error.message
  | .noDisplay => "no display is available; give a number of frames"
  | .finished frames cycles => s!"ran {frames} frames in {cycles} CPU cycles"

/-- The part of the program that reports. -/
def target : Event → String
  | .cpu _ => "famicore::cpu::cpu"
  | .cartridge event => event.target
  | .connected .. => "famicore::bus::bus"
  | .objectTransfer _ => "famicore::bus::nes_bus"
  | .soundWriteIgnored .. => "famicore::io"
  | .noJoypad _ => "famicore::nes"
  | _ => "famicore"

end Event

/-- Reports so far, down to the level `detail`; without one nothing is kept. -/
structure Journal where
  detail : Option Level := none
  /-- Latest first. -/
  entries : List Event := []
  deriving DecidableEq, Repr, Inhabited

namespace Journal

def keeps (l : Level) (j : Journal) : Bool := j.detail.any fun d => decide (l.rank ≤ d.rank)

def note (e : Event) (j : Journal) : Journal :=
  if j.keeps e.level then { j with entries := e :: j.entries } else j

def noteAll (es : List Event) (j : Journal) : Journal := es.foldl (fun j e => j.note e) j

end Journal
end NesConsole
