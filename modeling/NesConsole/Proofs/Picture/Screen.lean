import NesConsole.FlatMemory
import NesConsole.Proofs.Picture.Frame

/-! The registers set up before a frame and the run of dots to the end of its picture. -/
namespace NesConsole
namespace Beam

def pictureEnd : Beam := ⟨240, 0⟩

@[simp] theorem index_pictureEnd : pictureEnd.index = 81840 := rfl

/-- Dots to the end of the picture, when none is left out. -/
def toPictureEnd (b : Beam) : Nat := (pictureEnd.index + 89342 - b.index) % 89342

end Beam

namespace Ppu
section
variable {β : Type} [Bus β]

/-- The status is read, so that the scroll writes are a pair of their own. -/
def setUp (control scrollX scrollY mask : UInt8) : EStateM BusError (Wired Ppu β) Unit := do
  let _ ← readRegister 0x2002
  writeRegister 0x2000 control
  writeRegister 0x2005 scrollX
  writeRegister 0x2005 scrollY
  writeRegister 0x2001 mask

inductive RunsTo (target : Beam) : Wired Ppu β → Wired Ppu β → Prop where
  | there {w : Wired Ppu β} (h : w.chip.beam = target) : RunsTo target w w
  | dot {w w' w'' : Wired Ppu β} {t : Tick} (h : w.chip.beam ≠ target) (hs : step w = .ok t w')
    (hr : RunsTo target w' w'') : RunsTo target w w''

theorem toPictureEnd_step (mem : UInt16 → UInt8) (p : Ppu) (h : p.beam ≠ .pictureEnd) :
    (p.stepFrom mem).beam.toPictureEnd < p.beam.toPictureEnd := by
  have hne : p.beam.index ≠ 81840 := fun he => h (Beam.index_inj.1 he)
  have hlt := p.beam.index_lt
  rw [p.beam_stepFrom, Beam.toPictureEnd, Beam.toPictureEnd, Beam.index_pictureEnd]
  split
  case isTrue hskip =>
    simp only [Bool.and_eq_true, beq_iff_eq] at hskip
    have hlast : p.beam.index = 89340 := hskip.2 ▸ Beam.index_beforeSkip
    have hfirst : (⟨0, 0⟩ : Beam).index = 0 := rfl
    omega
  case isFalse =>
    rw [Beam.index_next]
    omega

variable {good : β → Prop} {mem : UInt16 → UInt8}

/-- Over a steady memory the picture gets done. -/
theorem exists_runsTo (hmem : Steady mem good) (w : Wired Ppu β) (hw : good w.bus) :
    ∃ w', RunsTo .pictureEnd w w' := by
  induction hn : w.chip.beam.toPictureEnd using Nat.strongRecOn generalizing w with
  | ind n ih =>
    by_cases hend : w.chip.beam = .pictureEnd
    · exact ⟨w, .there hend⟩
    · obtain ⟨b, hb, hgood⟩ := does_step hmem w.chip w.bus hw
      have hless := toPictureEnd_step mem w.chip hend
      rw [hn] at hless
      obtain ⟨w', hr⟩ := ih _ hless ⟨_, b⟩ hgood rfl
      exact ⟨w', .dot hend hb hr⟩

/-- On the way the unit keeps drawing the scene. -/
theorem RunsTo.draws {s : Scene} (hmem : Steady s.mem good) (hr : s.mask.rendering = true)
    {target : Beam} {w w' : Wired Ppu β} (h : RunsTo target w w') (hw : good w.bus)
    (hd : s.Draws w.chip) : s.Draws w'.chip ∧ w'.chip.beam = target := by
  induction h with
  | there h => exact ⟨hd, h⟩
  | @dot w _ _ _ _ hs _ ih =>
    obtain ⟨b, hb, hgood⟩ := does_step hmem w.chip w.bus hw
    obtain ⟨-, rfl⟩ := EStateM.Result.ok.inj (hs.symm.trans hb)
    exact ih hgood (hd.step hr)

end
end Ppu

namespace Scene
variable {s : Scene} {p : Ppu}

/-- The scroll that the registers take up points at the upper left corner. -/
theorem isAt_origin (s : Scene) (h : s.scrollY.toNat < 240) (t : ScrollAddress)
    (htable : t.tableX = s.control.tableX ∧ t.tableY = s.control.tableY)
    (hcolumn : t.coarseX.val = s.scrollX.toNat / 8) (hrow : t.coarseY.val = s.scrollY.toNat / 8)
    (hfine : t.fineY.val = s.scrollY.toNat % 8) :
    t.IsAt (s.originX / 8 % 64) (s.originY % 480) := by
  have hx := s.scrollX.toNat_lt
  have htx := s.control.tableX.isLt
  have hty := s.control.tableY.isLt
  refine ⟨?_, ?_, by omega⟩
  · rw [ScrollAddress.column, htable.1, hcolumn, originX]
    omega
  · rw [ScrollAddress.line, htable.2, hrow, hfine, originY]
    omega

/-- Before the frame nothing is promised but the registers. -/
theorem Set.draws (h : s.Set p) (hb : (241 ≤ p.beam.scanline.val ∧ p.beam.scanline.val ≤ 260) ∨
    p.beam = ⟨Beam.preRenderLine, 0⟩) : s.Draws p := by
  have hlate : 241 ≤ p.beam.scanline.val ∧
      (p.beam.scanline.val = 261 → p.beam.dot.val = 0) := by
    rcases hb with hb | hb
    · exact ⟨hb.1, fun he => by omega⟩
    · rw [hb]
      exact ⟨by decide, fun _ => rfl⟩
  refine ⟨h, fun hl => by omega, fun hl => by omega, fun hl => ?_, fun i _ hi => ?_⟩
  · have hpre : p.beam.scanline.val = 261 := congrArg Fin.val hl
    rw [hlate.2 hpre]
    exact ⟨fun hle => by omega, fun hle => by omega⟩
  · rw [pixelsDone, if_neg (by omega)] at hi
    exact absurd hi (Nat.not_lt_zero i)

theorem set_setUp {β : Type} [Bus β] (s : Scene) (h : s.scrollY.toNat < 240)
    (p : Ppu) (b : β) (ho : p.oam = s.oam) :
    ∃ q, Ppu.setUp s.control.byte s.scrollX s.scrollY s.mask.byte ⟨p, b⟩ = .ok () ⟨q, b⟩ ∧
      q.beam = p.beam ∧ s.Set q := by
  have hx := s.scrollX.toNat_lt
  have hfine : s.scrollX.toNat % 8 = s.originX % 8 := by
    rw [originX]
    omega
  refine ⟨_, rfl, rfl, rfl, rfl, hfine, ?_, ho⟩
  exact s.isAt_origin h _ ⟨rfl, rfl⟩ rfl rfl rfl

end Scene

theorem FlatMemory.get_wrapped (m : FlatMemory 0x4000) (address : UInt16) :
    m.get (UInt16.ofNat (address.toNat % 0x4000)).toNat = m.get address.toNat := by
  have hlt : address.toNat % 0x4000 < 65536 := by omega
  rw [get, get, UInt16.toNat_ofNat_of_lt' hlt, Nat.mod_mod]

/-- A flat memory that answers everywhere. -/
theorem FlatMemory.steady (m : FlatMemory 0x4000) :
    Steady (fun address => m.get address.toNat)
      fun n : FlatMemory 0x4000 => n.holes = [] ∧ n.cells = m.cells := by
  intro address n ⟨hholes, hcells⟩
  have hwrapped := n.get_wrapped address
  have hanswers : n.inHole (UInt16.ofNat (address.toNat % 0x4000)) = false := by
    rw [inHole, hholes, List.any_nil]
  have hget : n.get address.toNat = m.get address.toNat := by
    rw [get, get, hcells]
  refine ⟨n.note (.read (UInt16.ofNat (address.toNat % 0x4000)) (m.get address.toNat)), ?_,
    hholes, hcells⟩
  dsimp only [Bus.read]
  rw [hanswers, hwrapped, hget]
  rfl

/-- A frame whose registers are set up in the vertical blank, or before the first dot of the line
that ends it, shows the scene of those registers. -/
theorem frame_shows_scene (p : Ppu) (vram : FlatMemory 0x4000)
    (control scrollX scrollY mask : UInt8) (hvram : vram.holes = []) (hy : scrollY.toNat < 240)
    (hmask : (Mask.mk mask).rendering = true)
    (hbeam : (241 ≤ p.beam.scanline.val ∧ p.beam.scanline.val ≤ 260) ∨
      p.beam = ⟨Beam.preRenderLine, 0⟩) :
    ∃ w, Ppu.setUp control scrollX scrollY mask ⟨p, vram⟩ = .ok () w ∧
      (∃ w', Ppu.RunsTo .pictureEnd w w') ∧
      ∀ w', Ppu.RunsTo .pictureEnd w w' → ∀ px py, (hpx : px < 256) → (hpy : py < 240) →
        w'.chip.picture[py * 256 + px] = Scene.color
          { control := ⟨control⟩, mask := ⟨mask⟩, scrollX := scrollX, scrollY := scrollY
            oam := p.oam, mem := fun address => vram.get address.toNat } px py := by
  let s : Scene :=
    { control := ⟨control⟩, mask := ⟨mask⟩, scrollX := scrollX, scrollY := scrollY
      oam := p.oam, mem := fun address => vram.get address.toNat }
  obtain ⟨q, hq, hqb, hset⟩ := s.set_setUp hy p vram rfl
  have hsteady : Steady s.mem _ := vram.steady
  have hdraws : s.Draws q := hset.draws (hqb ▸ hbeam)
  refine ⟨⟨q, vram⟩, hq, Ppu.exists_runsTo hsteady _ ⟨hvram, rfl⟩, fun w' hw' px py hpx hpy => ?_⟩
  obtain ⟨hd, hend⟩ := hw'.draws hsteady hmask ⟨hvram, rfl⟩ hdraws
  have hcolumn : (py * 256 + px) % 256 = px := by omega
  have hrow : (py * 256 + px) / 256 = py := by omega
  have hdone : py * 256 + px < Scene.pixelsDone w'.chip.beam := by
    rw [hend]
    change py * 256 + px < 256 * 240 + 0
    omega
  have hpixel := hd.picture _ (by omega) hdone
  rw [hcolumn, hrow] at hpixel
  exact hpixel

/-- Tile 1 all over the first name table in palette 2, colors 1 and 3 side by side in it, and
color 2 all over tile 2. A palette entry is its own number. -/
def mosaicByte (address : Nat) : UInt8 :=
  if address < 0x10 then 0
  else if address < 0x18 then 0xFF
  else if address < 0x20 then 0x0F
  else if address < 0x28 then 0
  else if address < 0x30 then 0xFF
  else if address < 0x2000 then 0
  else if address < 0x23C0 then 1
  else if address < 0x2400 then 0xAA
  else if address < 0x3F00 then 0
  else UInt8.ofNat address

def mosaic : FlatMemory 0x4000 := { cells := .ofFn fun i => mosaicByte i.val }

/-- One sprite of tile 2 in the second sprite palette. -/
def mosaicObjects : ObjectMemory :=
  ((((Vector.replicate 256 0xFF).set 0 10).set 1 2).set 2 1).set 3 16

theorem get_mosaic (address : UInt16) :
    mosaic.get address.toNat = mosaicByte (address.toNat % 0x4000) := by
  have hlt : address.toNat % 0x4000 < 0x4000 := Nat.mod_lt _ (by decide)
  rw [FlatMemory.get, mosaic, Vector.getElem?_ofFn, dif_pos hlt]
  rfl

/-- Scrolled to the far corner, so that the first name table begins a pixel from the edges. There
are the backdrop, both colors of a tile, and the sprite over one. -/
theorem frame_shows_scene_of_mosaic :
    ∃ w, Ppu.setUp 0x03 0xFF 0xEF 0x1E ⟨{ oam := mosaicObjects }, mosaic⟩ = .ok () w ∧
      (∃ w', Ppu.RunsTo .pictureEnd w w') ∧
      ∀ w', Ppu.RunsTo .pictureEnd w w' →
        w'.chip.picture[0 * 256 + 0] = colorOf 0x00 ∧ w'.chip.picture[1 * 256 + 1] = colorOf 0x09 ∧
        w'.chip.picture[1 * 256 + 5] = colorOf 0x0B ∧
        w'.chip.picture[11 * 256 + 16] = colorOf 0x16 := by
  obtain ⟨w, hw, hruns, hpicture⟩ := frame_shows_scene { oam := mosaicObjects } mosaic 0x03 0xFF
    0xEF 0x1E rfl (by decide) (by decide) (.inr rfl)
  have hmem : (fun address => mosaic.get address.toNat) =
      fun address : UInt16 => mosaicByte (address.toNat % 0x4000) := funext get_mosaic
  rw [hmem] at hpicture
  refine ⟨w, hw, hruns, fun w' hw' => ⟨?_, ?_, ?_, ?_⟩⟩
  · exact (hpicture w' hw' 0 0 (by decide) (by decide)).trans (by decide +kernel)
  · exact (hpicture w' hw' 1 1 (by decide) (by decide)).trans (by decide +kernel)
  · exact (hpicture w' hw' 5 1 (by decide) (by decide)).trans (by decide +kernel)
  · exact (hpicture w' hw' 16 11 (by decide) (by decide)).trans (by decide +kernel)

end NesConsole
