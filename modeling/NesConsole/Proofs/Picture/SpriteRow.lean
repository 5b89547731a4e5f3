import NesConsole.Proofs.Picture.OverMemory

/-! The sprites of a line, column by column: each column shows the first selected entry that is
opaque there. -/
namespace NesConsole

def SpriteEntry.pixelAt (e : SpriteEntry) (i : Fin 64) (row : PatternRow) (x : Nat) : SpritePixel :=
  if e.x.toNat ≤ x ∧ x < e.x.toNat + 8 then
    { color := e.colorAt row (x - e.x.toNat)
      palette := e.palette
      behindBackground := e.behindBackground
      spriteZero := i == 0 }
  else {}

namespace SpritePixel

def under (above below : SpritePixel) : SpritePixel :=
  if above.isOpaque || !below.isOpaque then above else below

theorem under_blank (a : SpritePixel) : a.under {} = a := by
  have h : ({} : SpritePixel).isOpaque = false := rfl
  simp [under, h]

/-- Painting one behind the other leaves the first that is opaque. -/
theorem foldl_under (a : SpritePixel) (l : List SpritePixel) :
    l.foldl under a = if a.isOpaque then a else (l.find? isOpaque).getD a := by
  induction l generalizing a with
  | nil => simp
  | cons b l ih =>
    rw [List.foldl_cons, ih, List.find?_cons]
    unfold under
    cases ha : a.isOpaque with
    | true => simp [ha]
    | false =>
      cases hb : b.isOpaque with
      | true => simp [hb]
      | false => simp [ha]

end SpritePixel

namespace SpriteLine

theorem pixels_paintPixel (line : SpriteLine) (p : SpritePixel) (x px : Nat) (h : px < 256) :
    (line.paintPixel x p).pixels[px] =
      if x = px then line.pixels[px].under p else line.pixels[px] := by
  unfold paintPixel SpritePixel.under
  by_cases hx : x = px
  · subst hx
    rw [dif_pos h, if_pos rfl]
    split
    · rfl
    · simp
  · rw [if_neg hx]
    split
    · split
      · rfl
      · simp [hx]
    · rfl

/-- Painting `n` columns from `x` on. -/
theorem pixels_paintColumns (line : SpriteLine) (f : Nat → SpritePixel) (x n px : Nat)
    (h : px < 256) :
    ((List.range n).foldl (fun line column => line.paintPixel (x + column) (f column))
      line).pixels[px] =
      if x ≤ px ∧ px < x + n then line.pixels[px].under (f (px - x)) else line.pixels[px] := by
  induction n with
  | zero => simp [show ¬(x ≤ px ∧ px < x) by omega]
  | succ n ih =>
    rw [List.range_succ, List.foldl_append, List.foldl_cons, List.foldl_nil, pixels_paintPixel, ih]
    by_cases hlast : x + n = px
    · subst hlast
      simp
    · have hiff : (x ≤ px ∧ px < x + n) ↔ (x ≤ px ∧ px < x + (n + 1)) := by omega
      simp only [hlast, if_false, hiff]

theorem pixels_paint (line : SpriteLine) (i : Fin 64) (e : SpriteEntry) (row : PatternRow)
    (px : Nat) (h : px < 256) :
    (line.paint i e row).pixels[px] = line.pixels[px].under (e.pixelAt i row px) := by
  rw [paint, pixels_paintColumns line _ e.x.toNat 8 px h, SpriteEntry.pixelAt]
  split
  · rfl
  · rw [SpritePixel.under_blank]

end SpriteLine

def ObjectMemory.rowFrom (mem : UInt16 → UInt8) (oam : ObjectMemory) (scanline height : Nat)
    (table : UInt16) (i : Fin 64) : PatternRow :=
  let address := (oam.entry i).patternAddress scanline height table
  ⟨mem (UInt16.ofNat address), mem (UInt16.ofNat (address + 8))⟩

/-- What a column shows of the sprites: the first opaque pixel among the first eight entries that
cover the line. -/
def spriteColumn (mem : UInt16 → UInt8) (oam : ObjectMemory) (scanline height : Nat)
    (table : UInt16) (px : Nat) : SpritePixel :=
  let selected := (SpriteLine.covering oam scanline height).take 8
  ((selected.map fun i =>
    (oam.entry i).pixelAt i (oam.rowFrom mem scanline height table i) px).find?
      SpritePixel.isOpaque).getD {}

theorem pixels_spritesFrom (mem : UInt16 → UInt8) (oam : ObjectMemory) (scanline height : Nat)
    (table : UInt16) (px : Nat) (h : px < 256) :
    (Ppu.spritesFrom mem oam scanline height table).pixels[px] =
      spriteColumn mem oam scanline height table px := by
  have hfold (l : List (Fin 64)) (line : SpriteLine) :
      (l.foldl (Ppu.drawFrom mem oam scanline height table) line).pixels[px] =
        (l.map fun i => (oam.entry i).pixelAt i (oam.rowFrom mem scanline height table i)
          px).foldl SpritePixel.under line.pixels[px] := by
    induction l generalizing line with
    | nil => rfl
    | cons i l ih =>
      rw [List.foldl_cons, ih, List.map_cons, List.foldl_cons]
      congr 1
      exact SpriteLine.pixels_paint _ i _ _ px h
  have hempty : SpriteLine.empty.pixels[px] = {} := by simp [SpriteLine.empty]
  have hblank : ({} : SpritePixel).isOpaque = false := rfl
  rw [Ppu.spritesFrom, hfold, hempty, SpritePixel.foldl_under, hblank]
  rfl

end NesConsole
