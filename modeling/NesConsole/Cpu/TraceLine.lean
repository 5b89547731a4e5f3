import NesConsole.Cpu.Instruction
import NesConsole.Text.Hex
/-! The line that a trace shows for an instruction about to run. -/
namespace NesConsole

structure TraceLine where
  address : UInt16
  /-- The opcode and its operand bytes. -/
  bytes : List UInt8
  registers : Registers
  cycles : Nat
  deriving DecidableEq, Repr, Inhabited

namespace TraceLine

def mnemonic (t : TraceLine) : String :=
  match t.bytes.head?.bind Instruction.decode? with
  | some i => i.mnemonic
  | none => "???"

def padRight (width : Nat) (text : String) : String :=
  text ++ String.ofList (List.replicate (width - text.length) ' ')

def render (t : TraceLine) : String :=
  let r := t.registers
  let bytes := padRight 8 (" ".intercalate (t.bytes.map Hex.byte))
  s!"{Hex.word t.address}  {bytes}  {t.mnemonic}  A:{Hex.byte r.a} X:{Hex.byte r.x} " ++
  s!"Y:{Hex.byte r.y} P:{Hex.byte r.p.toByte} SP:{Hex.byte r.sp} CYC:{t.cycles}"

end TraceLine
end NesConsole
