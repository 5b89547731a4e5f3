import NesConsole.Word
/-! Name-table memory: four tables of 1 KiB, and the choice of table for each quarter of the two
by two arrangement. -/
namespace NesConsole

inductive Mirroring where
  | horizontal
  | vertical
  | singleScreenLower
  | singleScreenUpper
  | fourScreen
  deriving DecidableEq, Repr, Inhabited

namespace Mirroring

def name : Mirroring → String
  | .horizontal => "Horizontal"
  | .vertical => "Vertical"
  | .singleScreenLower => "SingleScreenLower"
  | .singleScreenUpper => "SingleScreenUpper"
  | .fourScreen => "FourScreen"

/-- The table behind a quarter, counted row by row. -/
def table (m : Mirroring) (quarter : Fin 4) : Fin 4 :=
  match m with
  | .horizontal => ⟨quarter.val / 2, by omega⟩
  | .vertical => ⟨quarter.val % 2, by omega⟩
  | .singleScreenLower => 0
  | .singleScreenUpper => 1
  | .fourScreen => quarter

end Mirroring

structure NameTables where
  cells : Vector UInt8 0x1000
  mirroring : Mirroring

namespace NameTables

def blank (mirroring : Mirroring) : NameTables := ⟨Vector.replicate 0x1000 0, mirroring⟩

def setMirroring (m : Mirroring) (t : NameTables) : NameTables := { t with mirroring := m }

def index (m : Mirroring) (address : UInt16) : Fin 0x1000 :=
  let quarter : Fin 4 := ⟨address.toNat / 0x400 % 4, Nat.mod_lt _ (by decide)⟩
  ⟨(m.table quarter).val * 0x400 + address.toNat % 0x400, by omega⟩

def read (t : NameTables) (address : UInt16) : UInt8 := t.cells[index t.mirroring address]

def write (address : UInt16) (data : UInt8) (t : NameTables) : NameTables :=
  { t with cells := t.cells.set (index t.mirroring address) data }

@[simp] theorem read_write (t : NameTables) (a b : UInt16) (v : UInt8) :
    (t.write a v).read b =
      if index t.mirroring a = index t.mirroring b then v else t.read b := by
  simp [read, write, Vector.getElem_set, Fin.ext_iff]

end NameTables
end NesConsole
