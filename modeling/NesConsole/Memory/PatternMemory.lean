import NesConsole.Memory.Bank
/-! The memory of a cartridge that holds the patterns: read-only when the image brings any, and
else 8 KiB of RAM. -/
namespace NesConsole

structure PatternMemory where
  bytes : Array UInt8
  writable : Bool
  deriving DecidableEq, Inhabited

namespace PatternMemory

def ramSize : Nat := 0x2000

def ofRom (rom : Array UInt8) : PatternMemory :=
  if rom.isEmpty then ⟨Array.replicate ramSize 0, true⟩ else ⟨rom, false⟩

def read? (m : PatternMemory) (bank bankSize offset : Nat) : Option UInt8 :=
  (Bank.place? m.bytes.size bank bankSize offset).bind fun i => m.bytes[i]?

def write? (m : PatternMemory) (bank bankSize offset : Nat) (data : UInt8) :
    Option PatternMemory :=
  if m.writable then
    match Bank.place? m.bytes.size bank bankSize offset with
    | some i => if h : i < m.bytes.size then some { m with bytes := m.bytes.set i data } else none
    | none => none
  else some m

end PatternMemory
end NesConsole
