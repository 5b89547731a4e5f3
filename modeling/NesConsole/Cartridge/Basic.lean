import NesConsole.Cartridge.Board
import NesConsole.Cartridge.Header
import NesConsole.Save.BatteryRam
/-! A cartridge: an accepted image on its board, with the work RAM that the board declares. -/
namespace NesConsole

/-- The work RAM at `$6000` to `$7FFF`. -/
inductive WorkRam where
  | absent
  | volatile (ram : Ram 0x2000)
  | battery (ram : BatteryRam 0x2000)

structure Cartridge where
  header : Header
  board : Board
  work : WorkRam
  /-- The file that the image came from. -/
  path : Option String

inductive CartridgeEvent where
  | save (event : SaveEvent)
  | noSaveFile
  | loaded (header : Header) (patternRam : Bool)
  | board (event : BoardEvent)
  | expansionWriteIgnored (address : UInt16) (data : UInt8)
  deriving DecidableEq, Repr

namespace Cartridge

def blankWorkRam : Ram 0x2000 := .blank 0x2000 ⟨13, rfl⟩

def boardOf (header : Header) (image : Array UInt8) : Except LoadError Board :=
  let size := image.size
  if header.trainer && decide (size < header.programStart) then
    .error (.truncated .trainer header.programStart size)
  else if header.programBanks = 0 then .error (.truncated .program 1 0)
  else if size < header.patternStart then
    .error (.truncated .program header.programLength (size - header.programStart))
  else if size < header.imageEnd then
    .error (.truncated .patterns header.patternLength (size - header.patternStart))
  else match Mapper.ofNumber? header.mapper with
    | none => .error (.unsupportedMapper header.mapper)
    | some mapper => .ok
      { program := ⟨image.extract header.programStart header.patternStart⟩
        patterns := .ofRom (image.extract header.patternStart header.imageEnd)
        mapper := mapper }

def workRamOf (header : Header) (board : Board) (path : Option String) (d : Disk) :
    WorkRam × List CartridgeEvent :=
  if board.workRamSize = 0 then (.absent, [])
  else match header.battery, path with
    | true, some path =>
      let (ram, events) := BatteryRam.restore blankWorkRam path d
      (.battery ram, events.map .save)
    | true, none => (.volatile blankWorkRam, [.noSaveFile])
    | false, _ => (.volatile blankWorkRam, [])

def ofImage (image : Array UInt8) (path : Option String) (d : Disk) :
    Except LoadError (Cartridge × List CartridgeEvent) := do
  let header ← Header.parse image
  let board ← boardOf header image
  let (work, events) := workRamOf header board path d
  return (⟨header, board, work, path⟩, events ++ [.loaded header board.patterns.writable])

def load (path : String) (d : Disk) : Except LoadError (Cartridge × List CartridgeEvent) :=
  match d.read path with
  | .error e => .error (.unreadable path e)
  | .ok image => ofImage image (some path) d

/-- Four screens are wired for good; otherwise the mapper's choice goes before the header's. -/
def mirroring (c : Cartridge) : Mirroring :=
  if c.header.mirroring = .fourScreen then .fourScreen
  else c.board.mirroring?.getD c.header.mirroring

/-- A processor read from `$4020` up. Nothing is connected below the work RAM. -/
def read? (address : UInt16) (c : Cartridge) : Option UInt8 :=
  if 0x8000 ≤ address then c.board.read? address
  else if 0x6000 ≤ address then
    match c.work with
    | .absent => some 0
    | .volatile ram => some (ram.read (address - 0x6000).toNat)
    | .battery ram => some (ram.read (address - 0x6000).toNat)
  else some 0

def write (address : UInt16) (data : UInt8) (c : Cartridge) : Cartridge :=
  if 0x8000 ≤ address then { c with board := c.board.write address data }
  else if 0x6000 ≤ address then
    match c.work with
    | .absent => c
    | .volatile ram => { c with work := .volatile (ram.write (address - 0x6000).toNat data) }
    | .battery ram => { c with work := .battery (ram.write (address - 0x6000).toNat data) }
  else c

def writeEvents (address : UInt16) (data : UInt8) (c : Cartridge) : List CartridgeEvent :=
  if 0x8000 ≤ address then (c.board.writeEvents address data).map .board
  else if 0x6000 ≤ address then []
  else [.expansionWriteIgnored address data]

def readPattern? (address : UInt16) (c : Cartridge) : Option UInt8 :=
  c.board.readPattern? (address % 0x2000)

def writePattern? (address : UInt16) (data : UInt8) (c : Cartridge) : Option Cartridge :=
  (c.board.writePattern? (address % 0x2000) data).map fun b => { c with board := b }

def patternWriteEvents (data : UInt8) (c : Cartridge) : List CartridgeEvent :=
  (c.board.patternWriteEvents data).map .board

def persist (c : Cartridge) : EStateM DiskError Disk Cartridge := do
  match c.work with
  | .battery ram => return { c with work := .battery (← ram.persist) }
  | _ => return c

def close (c : Cartridge) (d : Disk) : Disk × List CartridgeEvent :=
  match c.work with
  | .battery ram =>
    let (d, events) := ram.close d
    (d, events.map .save)
  | _ => (d, [])

end Cartridge
end NesConsole
