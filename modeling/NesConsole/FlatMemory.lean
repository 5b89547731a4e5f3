import NesConsole.Cpu.Clock
/-! A test bench for chips: one memory behind the whole address space, with holes where no device
answers, and a history of every access. -/
namespace NesConsole

inductive Access where
  | read (address : UInt16) (data : UInt8)
  | write (address : UInt16) (data : UInt8)
  | refusedRead (address : UInt16)
  | refusedWrite (address : UInt16)
  deriving DecidableEq, Repr, Inhabited

/-- Memory of `size` bytes, repeated over the address space. -/
structure FlatMemory (size : Nat) where
  cells : Vector UInt8 size
  /-- Inclusive ranges of addresses at which no device answers. -/
  holes : List (UInt16 × UInt16) := []
  /-- Accesses so far, latest first. -/
  history : List Access := []

namespace FlatMemory
variable {size : Nat}

def blank : FlatMemory size := { cells := Vector.replicate size 0 }

def get (address : Nat) (m : FlatMemory size) : UInt8 := m.cells[address % size]?.getD 0

def set (address : Nat) (data : UInt8) (m : FlatMemory size) : FlatMemory size :=
  { m with cells := m.cells.setIfInBounds (address % size) data }

/-- Writes `bytes` at `address` and up, past the holes and the history. -/
def load (address : Nat) (bytes : Array UInt8) (m : FlatMemory size) : FlatMemory size :=
  (bytes.foldl (fun (at', m) b => (at' + 1, set at' b m)) (address, m)).2

def inHole (address : UInt16) (m : FlatMemory size) : Bool :=
  m.holes.any fun (first, last) => first ≤ address && address ≤ last

def note (a : Access) (m : FlatMemory size) : FlatMemory size :=
  { m with history := a :: m.history }

instance : Bus (FlatMemory size) where
  read address := fun m =>
    let address := UInt16.ofNat (address.toNat % size)
    if m.inHole address then .error (.unmapped address) (m.note (.refusedRead address))
    else
      let data := m.get address.toNat
      .ok data (m.note (.read address data))
  write address data := fun m =>
    let address := UInt16.ofNat (address.toNat % size)
    if m.inHole address then .error (.unmapped address) (m.note (.refusedWrite address))
    else .ok () ((m.set address.toNat data).note (.write address data))

instance : CpuBus (FlatMemory size) where

end FlatMemory
end NesConsole
