import NesConsole.Word
/-! The 15-bit address that scrolls the background: a place on the two by two arrangement of name
tables, tile by tile, and the row inside the tile. -/
namespace NesConsole

structure ScrollAddress where
  fineY : Fin 8 := 0
  tableY : Fin 2 := 0
  tableX : Fin 2 := 0
  coarseY : Fin 32 := 0
  coarseX : Fin 32 := 0
  deriving DecidableEq, Repr, Inhabited

namespace ScrollAddress

def toNat (s : ScrollAddress) : Nat :=
  (((s.fineY.val * 2 + s.tableY.val) * 2 + s.tableX.val) * 32 + s.coarseY.val) * 32 + s.coarseX.val

def ofNat (n : Nat) : ScrollAddress where
  fineY := ⟨n / 4096 % 8, Nat.mod_lt _ (by decide)⟩
  tableY := ⟨n / 2048 % 2, Nat.mod_lt _ (by decide)⟩
  tableX := ⟨n / 1024 % 2, Nat.mod_lt _ (by decide)⟩
  coarseY := ⟨n / 32 % 32, Nat.mod_lt _ (by decide)⟩
  coarseX := ⟨n % 32, Nat.mod_lt _ (by decide)⟩

@[simp] theorem toNat_ofNat (n : Nat) : (ofNat n).toNat = n % 32768 := by
  simp only [toNat, ofNat]
  omega

@[simp] theorem ofNat_toNat (s : ScrollAddress) : ofNat s.toNat = s := by
  rcases s with ⟨a, b, c, d, e⟩
  have ha := a.isLt; have hb := b.isLt; have hc := c.isLt; have hd := d.isLt; have he := e.isLt
  simp only [ofNat, toNat, mk.injEq, Fin.ext_iff]
  omega

theorem toNat_lt (s : ScrollAddress) : s.toNat < 32768 := by
  have h := toNat_ofNat s.toNat
  rw [ofNat_toNat] at h
  omega

/-- The bus has 14 address lines. -/
def busAddress (s : ScrollAddress) : UInt16 := UInt16.ofNat (s.toNat % 0x4000)

def tableOffset (s : ScrollAddress) : Nat := (s.tableY.val * 2 + s.tableX.val) * 0x400

def tileAddress (s : ScrollAddress) : UInt16 :=
  UInt16.ofNat (0x2000 + s.tableOffset + s.coarseY.val * 32 + s.coarseX.val)

/-- Where the palettes of the surrounding block of four by four tiles stand. -/
def attributeAddress (s : ScrollAddress) : UInt16 :=
  UInt16.ofNat (0x23C0 + s.tableOffset + s.coarseY.val / 4 * 8 + s.coarseX.val / 4)

def paletteIn (s : ScrollAddress) (palettes : UInt8) : Fin 4 :=
  let quarter := s.coarseY.val / 2 % 2 * 2 + s.coarseX.val / 2 % 2
  ⟨palettes.toNat >>> (2 * quarter) % 4, Nat.mod_lt _ (by decide)⟩

def nextColumn (s : ScrollAddress) : ScrollAddress :=
  { s with
    coarseX := s.coarseX + 1
    tableX := if s.coarseX = 31 then s.tableX + 1 else s.tableX }

/-- One row of pixels down. A name table has 30 rows of tiles; from the two rows of attributes
below them the address wraps without leaving the table. -/
def nextRow (s : ScrollAddress) : ScrollAddress :=
  if s.fineY ≠ 7 then { s with fineY := s.fineY + 1 }
  else
    { s with
      fineY := 0
      coarseY := if s.coarseY = 29 then 0 else s.coarseY + 1
      tableY := if s.coarseY = 29 then s.tableY + 1 else s.tableY }

def withColumnOf (s t : ScrollAddress) : ScrollAddress :=
  { s with coarseX := t.coarseX, tableX := t.tableX }

def withRowOf (s t : ScrollAddress) : ScrollAddress :=
  { s with fineY := t.fineY, coarseY := t.coarseY, tableY := t.tableY }

end ScrollAddress
end NesConsole
