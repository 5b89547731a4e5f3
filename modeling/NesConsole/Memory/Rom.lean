import NesConsole.Memory.Bank
/-! Read-only memory. A byte past its end is not there. -/
namespace NesConsole

structure Rom where
  bytes : Array UInt8
  deriving DecidableEq, Inhabited

namespace Rom

def size (r : Rom) : Nat := r.bytes.size

def get? (r : Rom) (offset : Nat) : Option UInt8 := r.bytes[offset]?

def bankCount? (r : Rom) (bankSize : Nat) : Option Nat := Bank.count? r.size bankSize

def banked? (r : Rom) (bank bankSize offset : Nat) : Option UInt8 :=
  (Bank.place? r.size bank bankSize offset).bind r.get?

end Rom
end NesConsole
