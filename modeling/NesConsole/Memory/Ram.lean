/-! Read-write memory whose size is a power of two. It answers at every offset and repeats itself
past its end. -/
namespace NesConsole

structure Ram (size : Nat) where
  cells : Vector UInt8 size
  size_pow : size.isPowerOfTwo

namespace Ram
variable {size : Nat}

def blank (size : Nat) (h : size.isPowerOfTwo) : Ram size := ⟨Vector.replicate size 0, h⟩

/-- No memory has this many bytes. -/
def sizeLimit : Nat := 0x8000000000000000

def ofSize? (size : Nat) : Option (Ram size) :=
  if h : size.isPowerOfTwo ∧ size < sizeLimit then some (blank size h.1) else none

def index (r : Ram size) (offset : Nat) : Fin size :=
  ⟨offset % size, Nat.mod_lt _ (Nat.pos_of_isPowerOfTwo r.size_pow)⟩

def read (r : Ram size) (offset : Nat) : UInt8 := r.cells[r.index offset]

def write (offset : Nat) (data : UInt8) (r : Ram size) : Ram size :=
  { r with cells := r.cells.set (r.index offset) data }

def fill (data : UInt8) (r : Ram size) : Ram size :=
  { r with cells := Vector.replicate size data }

@[simp] theorem read_write (r : Ram size) (a b : Nat) (v : UInt8) :
    (r.write a v).read b = if a % size = b % size then v else r.read b := by
  simp [read, write, index, Vector.getElem_set]

end Ram

/-- Where an address falls in a device that is seen again from `base` on. -/
def rebased (base address : UInt16) : UInt16 := address - base

end NesConsole
