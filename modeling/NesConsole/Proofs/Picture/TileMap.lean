import NesConsole.Proofs.Picture.OverMemory

/-! The background as a world of 512 by 480 points, and the scroll address as a walk over it: tile
by tile to the right, row by row down. -/
namespace NesConsole
namespace ScrollAddress

/-- Tiles from the left edge of the two by two name tables, and rows of pixels from their top. -/
def column (s : ScrollAddress) : Nat := s.tableX.val * 32 + s.coarseX.val
def line (s : ScrollAddress) : Nat := s.tableY.val * 240 + s.coarseY.val * 8 + s.fineY.val

/-- On a tile of the name tables, not on their attributes. -/
structure IsAt (s : ScrollAddress) (column line : Nat) : Prop where
  column : s.column = column
  line : s.line = line
  onTiles : s.coarseY.val < 30

theorem column_nextColumn (s : ScrollAddress) : s.nextColumn.column = (s.column + 1) % 64 := by
  have hx := s.coarseX.isLt
  have ht := s.tableX.isLt
  have h31 : s.coarseX = 31 ↔ s.coarseX.val = 31 := Fin.ext_iff
  have hone : (1 : Fin 32).val = 1 := rfl
  have htwo : (1 : Fin 2).val = 1 := rfl
  simp only [column, nextColumn, Fin.val_add, hone]
  split
  · rw [Fin.val_add, htwo]
    omega
  · omega

theorem IsAt.nextColumn {s : ScrollAddress} {c l : Nat} (h : s.IsAt c l) :
    s.nextColumn.IsAt ((c + 1) % 64) l where
  column := h.column ▸ s.column_nextColumn
  line := h.line
  onTiles := h.onTiles

theorem column_nextRow (s : ScrollAddress) : s.nextRow.column = s.column := by
  unfold nextRow
  split <;> rfl

theorem line_nextRow (s : ScrollAddress) (h : s.coarseY.val < 30) :
    s.nextRow.line = (s.line + 1) % 480 ∧ s.nextRow.coarseY.val < 30 := by
  have hf := s.fineY.isLt
  have ht := s.tableY.isLt
  have hone : (1 : Fin 8).val = 1 ∧ (1 : Fin 32).val = 1 ∧ (1 : Fin 2).val = 1 := ⟨rfl, rfl, rfl⟩
  have hzero : (0 : Fin 8).val = 0 ∧ (0 : Fin 32).val = 0 := ⟨rfl, rfl⟩
  by_cases hfine : s.fineY = 7
  · have h7 : s.fineY.val = 7 := Fin.ext_iff.1 hfine
    by_cases hlast : s.coarseY = 29
    · have h29 : s.coarseY.val = 29 := Fin.ext_iff.1 hlast
      simp only [nextRow, hfine, hlast, ne_eq, not_true, if_false, if_true, line, Fin.val_add, hone,
        hzero]
      omega
    · have h29 : s.coarseY.val ≠ 29 := fun h => hlast (Fin.ext h)
      simp only [nextRow, hfine, hlast, ne_eq, not_true, if_false, line, Fin.val_add, hone, hzero]
      omega
  · have h7 : s.fineY.val ≠ 7 := fun h => hfine (Fin.ext h)
    simp only [nextRow, hfine, ne_eq, not_false_eq_true, if_true, line, Fin.val_add, hone]
    omega

theorem IsAt.nextRow {s : ScrollAddress} {c l : Nat} (h : s.IsAt c l) :
    s.nextRow.IsAt c ((l + 1) % 480) :=
  ⟨s.column_nextRow.trans h.column, h.line ▸ (s.line_nextRow h.onTiles).1,
    (s.line_nextRow h.onTiles).2⟩

theorem IsAt.withColumnOf {s t : ScrollAddress} {c l c' l' : Nat} (h : s.IsAt c l)
    (ht : t.IsAt c' l') : (s.withColumnOf t).IsAt c' l :=
  ⟨ht.column, h.line, h.onTiles⟩

theorem IsAt.withRowOf {s t : ScrollAddress} {c l : Nat} (hs : s.column = c) (ht : t.IsAt c l) :
    (s.withRowOf t).IsAt c l :=
  ⟨hs, ht.line, ht.onTiles⟩

end ScrollAddress

structure Scene where
  control : Control
  mask : Mask
  scrollX : UInt8
  scrollY : UInt8
  oam : ObjectMemory
  mem : UInt16 → UInt8

namespace Scene

/-- The background at a point of the world: of the four name tables two stand side by side, two on
top of each other, each 32 by 30 tiles. -/
def worldPixel (s : Scene) (x y : Nat) : BackgroundPixel :=
  let table := 2 * (y / 240) + x / 256
  let column := x % 256 / 8
  let row := y % 240 / 8
  let name := s.mem (UInt16.ofNat (0x2000 + table * 0x400 + row * 32 + column))
  let attributes := s.mem (UInt16.ofNat (0x23C0 + table * 0x400 + row / 4 * 8 + column / 4))
  let pattern := s.control.backgroundTable.toNat + name.toNat * 16 + y % 8
  let bits : PatternRow := ⟨s.mem (UInt16.ofNat pattern), s.mem (UInt16.ofNat (pattern + 8))⟩
  { color := bits.color (x % 8)
    palette := ⟨attributes.toNat >>> (2 * (row / 2 % 2 * 2 + column / 2 % 2)) % 4,
      Nat.mod_lt _ (by decide)⟩ }

def originX (s : Scene) : Nat := s.control.tableX.val * 256 + s.scrollX.toNat
def originY (s : Scene) : Nat := s.control.tableY.val * 240 + s.scrollY.toNat

def backgroundAt (s : Scene) (px py : Nat) : BackgroundPixel :=
  s.worldPixel ((s.originX + px) % 512) ((s.originY + py) % 480)

theorem tileAddress_eq (v : ScrollAddress) (hy : v.coarseY.val < 30) {i : Nat} (hi : i < 8) :
    v.tileAddress = UInt16.ofNat (0x2000 + (2 * (v.line / 240) + (v.column * 8 + i) / 256) * 0x400 +
      v.line % 240 / 8 * 32 + (v.column * 8 + i) % 256 / 8) := by
  have hx := v.coarseX.isLt
  have hf := v.fineY.isLt
  rw [ScrollAddress.tileAddress, ScrollAddress.tableOffset, ScrollAddress.line,
    ScrollAddress.column]
  refine congrArg UInt16.ofNat ?_
  omega

theorem attributeAddress_eq (v : ScrollAddress) (hy : v.coarseY.val < 30) {i : Nat} (hi : i < 8) :
    v.attributeAddress = UInt16.ofNat (0x23C0 +
      (2 * (v.line / 240) + (v.column * 8 + i) / 256) * 0x400 + v.line % 240 / 8 / 4 * 8 +
      (v.column * 8 + i) % 256 / 8 / 4) := by
  have hx := v.coarseX.isLt
  have hf := v.fineY.isLt
  rw [ScrollAddress.attributeAddress, ScrollAddress.tableOffset, ScrollAddress.line,
    ScrollAddress.column]
  refine congrArg UInt16.ofNat ?_
  omega

/-- A fetch brings the eight points of the world under its tile. -/
theorem tileFrom_pixels (s : Scene) {p : Ppu} {c l : Nat} (hc : p.control = s.control)
    (hv : p.v.IsAt c l) : (p.tileFrom s.mem).pixels =
      (List.range 8).map fun i => s.worldPixel (c * 8 + i) l := by
  obtain ⟨rfl, rfl, hy⟩ := hv
  have hx := p.v.coarseX.isLt
  have hf := p.v.fineY.isLt
  have hline : p.v.line % 8 = p.v.fineY.val := by
    rw [ScrollAddress.line]
    omega
  have hrow : p.v.line % 240 / 8 = p.v.coarseY.val := by
    rw [ScrollAddress.line]
    omega
  refine List.map_congr_left fun i hi => ?_
  have hi8 := List.mem_range.1 hi
  have hcolumn : (p.v.column * 8 + i) % 256 / 8 = p.v.coarseX.val := by
    rw [ScrollAddress.column]
    omega
  have hbit : (p.v.column * 8 + i) % 8 = i := by omega
  have hpattern : UInt16.ofNat (p.control.backgroundTable.toNat +
      (s.mem p.v.tileAddress).toNat * 16 + p.v.fineY.val) = p.control.backgroundTable +
      UInt16.ofNat ((s.mem p.v.tileAddress).toNat * 16 + p.v.fineY.val) := by
    rw [Nat.add_assoc, UInt16.ofNat_add, UInt16.ofNat_toNat]
  have hpattern8 : UInt16.ofNat (p.control.backgroundTable.toNat +
      (s.mem p.v.tileAddress).toNat * 16 + p.v.fineY.val + 8) = p.control.backgroundTable +
      UInt16.ofNat ((s.mem p.v.tileAddress).toNat * 16 + p.v.fineY.val) + 8 := by
    rw [UInt16.ofNat_add, hpattern]
    rfl
  have htile := tileAddress_eq p.v hy hi8
  have hattribute := attributeAddress_eq p.v hy hi8
  simp only [worldPixel, ← htile, ← hattribute]
  simp only [hline, hrow, hcolumn, hbit, ← hc, hpattern, hpattern8]
  rfl

/-- The first pixels of a row of the picture, from the left edge of the tile that it starts in. -/
def rowPixels (s : Scene) (py tiles : Nat) : BackgroundQueue :=
  (List.range (8 * tiles)).map fun i =>
    s.worldPixel ((s.originX / 8 * 8 + i) % 512) ((s.originY + py) % 480)

@[simp] theorem length_rowPixels (s : Scene) (py tiles : Nat) :
    (s.rowPixels py tiles).length = 8 * tiles := by
  simp [rowPixels]

theorem rowPixels_succ (s : Scene) {p : Ppu} {py n : Nat} (hc : p.control = s.control)
    (hv : p.v.IsAt ((s.originX / 8 + n) % 64) ((s.originY + py) % 480)) :
    s.rowPixels py (n + 1) = s.rowPixels py n ++ (p.tileFrom s.mem).pixels := by
  have h8 : 8 * (n + 1) = 8 * n + 8 := by omega
  rw [s.tileFrom_pixels hc hv, rowPixels, rowPixels, h8, List.range_add, List.map_append,
    List.map_map]
  refine congrArg (_ ++ ·) (List.map_congr_left fun i hi => ?_)
  have hi8 := List.mem_range.1 hi
  change s.worldPixel ((s.originX / 8 * 8 + (8 * n + i)) % 512) _ = _
  congr 1
  omega

/-- A tile takes its place behind the one being drawn. -/
theorem loadNext_rowPixels (s : Scene) {p : Ppu} {py n : Nat} (hc : p.control = s.control)
    (hv : p.v.IsAt ((s.originX / 8 + (n + 1)) % 64) ((s.originY + py) % 480)) :
    BackgroundQueue.loadNext (p.tileFrom s.mem) ((s.rowPixels py (n + 1)).drop (8 * n)) =
      (s.rowPixels py (n + 2)).drop (8 * n) := by
  have hlength : ((s.rowPixels py (n + 1)).drop (8 * n)).length = 8 := by
    rw [List.length_drop, length_rowPixels]
    omega
  have hle : 8 * n ≤ (s.rowPixels py (n + 1)).length := by
    rw [length_rowPixels]
    omega
  rw [s.rowPixels_succ hc hv, List.drop_append_of_le_length hle, BackgroundQueue.loadNext,
    List.take_of_length_le (Nat.le_of_eq hlength)]
  congr 1
  simp [List.rightpad, hlength]

theorem loadFirst_rowPixels (s : Scene) {p : Ppu} {py : Nat} (hc : p.control = s.control)
    (hv : p.v.IsAt (s.originX / 8 % 64) ((s.originY + py) % 480)) :
    BackgroundQueue.loadFirst (p.tileFrom s.mem) = s.rowPixels py 1 := by
  rw [s.rowPixels_succ hc (n := 0) hv]
  rfl

/-- The pixel under the beam, as many places into the queue as the scroll is into its tile. -/
theorem pixel_rowPixels (s : Scene) {fineX : Fin 8} {px py n : Nat}
    (hfine : fineX.val = s.originX % 8) (h : px + 8 ≤ 8 * n) :
    BackgroundQueue.pixel fineX ((s.rowPixels py n).drop px) = s.backgroundAt px py := by
  have hlt := fineX.isLt
  have hrange : px + fineX.val < 8 * n := by omega
  rw [BackgroundQueue.pixel, List.getElem?_drop, rowPixels, List.getElem?_map,
    List.getElem?_range hrange]
  change s.worldPixel _ _ = s.worldPixel _ _
  congr 1
  omega

end Scene
end NesConsole
