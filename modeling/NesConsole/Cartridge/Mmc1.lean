import NesConsole.Memory.NameTables
import NesConsole.Word
/-! The MMC1 mapper. Its four registers are written a bit at a time: the fifth bit completes a
value, and the address of that write chooses the register. -/
namespace NesConsole

structure Mmc1 where
  /-- Bits of the value under way, first written first; fewer than five. -/
  pending : List Bool := []
  control : UInt8 := 0x0C
  chr0 : UInt8 := 0
  chr1 : UInt8 := 0
  prg : UInt8 := 0
  deriving DecidableEq, Repr, Inhabited

namespace Mmc1

def value (bits : List Bool) : UInt8 :=
  UInt8.ofNat (bits.foldr (fun b n => b.toNat + 2 * n) 0)

def commit (address : UInt16) (v : UInt8) (m : Mmc1) : Mmc1 :=
  match address.toNat / 0x2000 % 4 with
  | 0 => { m with control := v }
  | 1 => { m with chr0 := v }
  | 2 => { m with chr1 := v }
  | _ => { m with prg := v % 16 }

def completes (data : UInt8) (m : Mmc1) : Bool := !hasBit data 7 && m.pending.length == 4

def write (address : UInt16) (data : UInt8) (m : Mmc1) : Mmc1 :=
  if hasBit data 7 then { m with pending := [], control := m.control ||| 0x0C }
  else
    let bits := m.pending ++ [hasBit data 0]
    if m.completes data then commit address (value bits) { m with pending := [] }
    else { m with pending := bits }

/-- The 16 KiB bank at a processor address, `last` being the number of the last bank. Modes 0 and
1 switch both halves together, 2 fixes the first bank low, 3 the last bank high. -/
def programBank (m : Mmc1) (last : Nat) (address : UInt16) : Nat :=
  let upper := decide (0xC000 ≤ address)
  let bank := m.prg.toNat
  match m.control.toNat / 4 % 4, upper with
  | 2, false => 0
  | 2, true => bank
  | 3, false => bank
  | 3, true => last
  | _, _ => bank / 2 * 2 + upper.toNat

/-- The 4 KiB bank at a picture address. Bit 4 of control switches the halves on their own. -/
def patternBank (m : Mmc1) (address : UInt16) : Nat :=
  let upper := decide (address.toNat / 0x1000 % 2 = 1)
  if !hasBit m.control 4 then m.chr0.toNat / 2 * 2 + upper.toNat
  else if upper then m.chr1.toNat
  else m.chr0.toNat

def mirroring (m : Mmc1) : Mirroring :=
  match m.control.toNat % 4 with
  | 0 => .singleScreenLower
  | 1 => .singleScreenUpper
  | 2 => .vertical
  | _ => .horizontal

end Mmc1
end NesConsole
