import NesConsole.Memory.NameTables
import NesConsole.Save.Disk
import NesConsole.Word
/-! The 16 bytes that open an image: sizes of its sections, the board, and the wiring. A second
version of the format widens the numbers. -/
namespace NesConsole

inductive Section where
  | trainer
  | program
  | patterns
  deriving DecidableEq, Repr, Inhabited

def Section.name : Section → String
  | .trainer => "trainer"
  | .program => "PRG ROM"
  | .patterns => "CHR ROM"

inductive LoadError where
  | unreadable (path : String) (error : DiskError)
  | headerTooShort (length : Nat)
  | badMagic
  | truncated (part : Section) (expected found : Nat)
  | unsupportedMapper (mapper : Nat)
  deriving DecidableEq, Repr, Inhabited

def LoadError.message : LoadError → String
  | .unreadable path error => s!"error reading {path}: {error.message}"
  | .headerTooShort length => s!"header should be 16 bytes, image is {length} bytes"
  | .badMagic => "missing \"NES\\x1A\" magic"
  | .truncated part expected found =>
    s!"{part.name} truncated: expected {expected} bytes, found {found}"
  | .unsupportedMapper mapper => s!"unsupported mapper {mapper}"

structure Header where
  /-- Program memory in banks of 16 KiB. -/
  programBanks : Nat
  /-- Pattern memory in banks of 8 KiB; none means RAM. -/
  patternBanks : Nat
  mapper : Nat
  submapper : Nat
  mirroring : Mirroring
  battery : Bool
  trainer : Bool
  version2 : Bool
  deriving DecidableEq, Repr, Inhabited

namespace Header

def length : Nat := 16
def trainerLength : Nat := 512
def magic : Array UInt8 := #[0x4E, 0x45, 0x53, 0x1A]

def programLength (h : Header) : Nat := h.programBanks * 0x4000
def patternLength (h : Header) : Nat := h.patternBanks * 0x2000

def programStart (h : Header) : Nat := length + if h.trainer then trainerLength else 0
def patternStart (h : Header) : Nat := h.programStart + h.programLength
def imageEnd (h : Header) : Nat := h.patternStart + h.patternLength

/-- A size whose low byte stands in the first version and whose high digit in the second; the
digit 15 announces a form of size that is not supported, and is passed over. -/
def widened (low digit : Nat) : Nat := if digit = 15 then low else digit * 256 + low

def wiring (flags : UInt8) : Mirroring :=
  if hasBit flags 3 then .fourScreen else if hasBit flags 0 then .vertical else .horizontal

def parse (image : Array UInt8) : Except LoadError Header :=
  if h : image.size < 16 then .error (.headerTooShort image.size)
  else if image.extract 0 4 != magic then .error .badMagic
  else
    let flags6 := image[6]
    let flags7 := image[7]
    let flags8 := image[8].toNat
    let sizes := image[9].toNat
    let version2 := flags7.toNat / 4 % 4 == 2
    let mapper := flags7.toNat / 16 * 16 + flags6.toNat / 16
    let program := image[4].toNat
    let pattern := image[5].toNat
    .ok
      { programBanks := if version2 then widened program (sizes % 16) else program
        patternBanks := if version2 then widened pattern (sizes / 16) else pattern
        mapper := if version2 then flags8 % 16 * 256 + mapper else mapper
        submapper := if version2 then flags8 / 16 else 0
        mirroring := wiring flags6
        battery := hasBit flags6 1
        trainer := hasBit flags6 2
        version2 := version2 }

end Header
end NesConsole
