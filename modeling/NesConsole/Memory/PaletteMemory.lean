/-! Palette memory: 32 cells of six bits, of which the first of each sprite palette is the first
of the background palette beside it. -/
namespace NesConsole

structure PaletteMemory where
  cells : Vector UInt8 32

namespace PaletteMemory

def blank : PaletteMemory := ⟨Vector.replicate 32 0⟩

instance : Inhabited PaletteMemory := ⟨blank⟩

def index (address : UInt16) : Fin 32 :=
  if 16 ≤ address.toNat % 32 ∧ address.toNat % 4 = 0 then ⟨address.toNat % 32 - 16, by omega⟩
  else ⟨address.toNat % 32, by omega⟩

def read (m : PaletteMemory) (address : UInt16) : UInt8 := m.cells[index address]

def write (address : UInt16) (data : UInt8) (m : PaletteMemory) : PaletteMemory :=
  { m with cells := m.cells.set (index address) (data &&& 0x3F) }

@[simp] theorem read_write (m : PaletteMemory) (a b : UInt16) (v : UInt8) :
    (m.write a v).read b = if index a = index b then v &&& 0x3F else m.read b := by
  simp [read, write, Vector.getElem_set, Fin.ext_iff]

end PaletteMemory
end NesConsole
