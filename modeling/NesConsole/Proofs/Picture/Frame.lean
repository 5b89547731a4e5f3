import NesConsole.Proofs.Picture.SpriteRow
import NesConsole.Proofs.Picture.TileMap

/-! A whole frame: the pixels that the dots of a frame put into the picture are those of the scene
that the registers set up before it. -/
namespace NesConsole
namespace Scene

def shownBackground (s : Scene) (px py : Nat) : BackgroundPixel :=
  if s.mask.showsBackgroundAt px then s.backgroundAt px py else {}

def spriteAt (s : Scene) (px py : Nat) : SpritePixel :=
  spriteColumn s.mem s.oam py s.control.spriteHeight s.control.spriteTable px

def shownSprite (s : Scene) (px py : Nat) : SpritePixel :=
  if s.mask.showsSpritesAt px then s.spriteAt px py else {}

/-- The palette cell of a pixel: a sprite in front of the background or over nothing, else the
background, else the backdrop. -/
def cell (s : Scene) (px py : Nat) : UInt16 :=
  let sprite := s.shownSprite px py
  let background := s.shownBackground px py
  if sprite.isOpaque && (!sprite.behindBackground || background.color == 0) then
    UInt16.ofNat (0x3F10 + 4 * sprite.palette.val + sprite.color.val)
  else if background.color != 0 then
    UInt16.ofNat (0x3F00 + 4 * background.palette.val + background.color.val)
  else 0x3F00

def color (s : Scene) (px py : Nat) : UInt32 :=
  let entry := s.mem (s.cell px py)
  colorOf (if s.mask.greyscale then entry &&& 0x30 else entry)

structure Set (s : Scene) (p : Ppu) : Prop where
  control : p.control = s.control
  mask : p.mask = s.mask
  fineX : p.fineX.val = s.originX % 8
  t : p.t.IsAt (s.originX / 8 % 64) (s.originY % 480)
  oam : p.oam = s.oam

theorem Set.step {s : Scene} {p : Ppu} (h : s.Set p) : s.Set (p.stepFrom s.mem) := by
  have hs := p.setting_stepFrom s.mem
  simp only [Ppu.setting, Ppu.Setting.mk.injEq] at hs
  obtain ⟨hc, hm, hf, ht, ho, -⟩ := hs
  exact ⟨hc.trans h.control, hm.trans h.mask, hf ▸ h.fineX, ht ▸ h.t, ho.trans h.oam⟩

/-- Before dot `dot` on the way from the end of one row's fetches to the first pixel of row `py`,
whose first tile comes at dot 321. -/
structure Turned (s : Scene) (py dot : Nat) (p : Ppu) : Prop where
  before : dot ≤ 321 → p.v.IsAt (s.originX / 8 % 64) ((s.originY + py) % 480)
  after : 322 ≤ dot → p.v.IsAt ((s.originX / 8 + 1) % 64) ((s.originY + py) % 480) ∧
    p.background = s.rowPixels py 1

structure OnRow (s : Scene) (py dot : Nat) (p : Ppu) : Prop where
  v : dot ≤ 248 →
    p.v.IsAt ((s.originX / 8 + 1 + (dot + 7) / 8) % 64) ((s.originY + py) % 480)
  background : dot ≤ 256 → p.background = (s.rowPixels py (1 + (dot + 7) / 8)).drop dot
  turned : 249 ≤ dot → s.Turned (py + 1) dot p

structure OnPreRender (s : Scene) (dot : Nat) (p : Ppu) : Prop where
  column : 249 ≤ dot → dot ≤ 280 → p.v.column = s.originX / 8 % 64
  turned : 281 ≤ dot → s.Turned 0 dot p

def HasSprites (s : Scene) (py : Nat) (line : SpriteLine) : Prop :=
  ∀ px, (h : px < 256) → line.pixels[px] = s.spriteAt px py

def pixelsDone (b : Beam) : Nat :=
  if b.scanline.val ≤ 240 then 256 * b.scanline.val + min b.dot.val 256 else 0

structure Draws (s : Scene) (p : Ppu) : Prop where
  set : s.Set p
  row : p.beam.scanline.val < 240 → s.OnRow p.beam.scanline.val p.beam.dot.val p
  sprites : p.beam.scanline.val < 240 → 1 ≤ p.beam.dot.val →
    s.HasSprites p.beam.scanline.val p.sprites
  preRender : p.beam.scanline = Beam.preRenderLine → s.OnPreRender p.beam.dot.val p
  picture : ∀ i, (h : i < 256 * 240) → i < pixelsDone p.beam →
    p.picture[i] = s.color (i % 256) (i / 256)

/-! The fetches of one dot. -/

section
variable {s : Scene} {p : Ppu}

theorem onRenderLine_of_lt (hl : p.beam.scanline.val < 240) : p.beam.onRenderLine = true := by
  rw [Beam.onRenderLine, Beam.onVisibleLine, decide_eq_true hl, Bool.true_or]

theorem fetchStageFrom_rendering (hr : p.mask.rendering = true) (hl : p.beam.onRenderLine = true) :
    Ppu.fetchStageFrom s.mem p = Ppu.fetchFrom s.mem p := by
  rw [Ppu.fetchStageFrom, hr, hl]
  rfl

theorem fetchFrom_tile (h : p.beam.dot.val ≤ 248) (h8 : p.beam.dot.val % 8 = 0) :
    Ppu.fetchFrom s.mem p = { p with
      background := p.background.loadNext (p.tileFrom s.mem)
      v := if p.beam.dot = 248 then (p.v.withColumnOf p.t).nextRow else p.v.nextColumn } :=
  if_pos ⟨h, h8⟩

theorem fetchFrom_first (h : p.beam.dot = 321) :
    Ppu.fetchFrom s.mem p = { p with
      background := .loadFirst (p.tileFrom s.mem), v := p.v.nextColumn } := by
  have h321 : p.beam.dot.val = 321 := congrArg Fin.val h
  rw [Ppu.fetchFrom, if_neg (by omega), if_neg (by omega), if_pos h]

theorem fetchFrom_row (h : 280 ≤ p.beam.dot.val) (h' : p.beam.dot.val ≤ 304)
    (hl : p.beam.scanline = Beam.preRenderLine) :
    Ppu.fetchFrom s.mem p = { p with v := p.v.withRowOf p.t } := by
  rw [Ppu.fetchFrom, if_neg (by omega), if_pos ⟨h, h', hl⟩]

theorem fetchFrom_idle (h : ¬(p.beam.dot.val ≤ 248 ∧ p.beam.dot.val % 8 = 0))
    (hrow : ¬(280 ≤ p.beam.dot.val ∧ p.beam.dot.val ≤ 304 ∧ p.beam.scanline = Beam.preRenderLine))
    (hfirst : p.beam.dot.val ≠ 321) : Ppu.fetchFrom s.mem p = p := by
  have h321 : p.beam.dot ≠ 321 := fun h => hfirst (congrArg Fin.val h)
  rw [Ppu.fetchFrom, if_neg h, if_neg hrow, if_neg h321]

/-- On a row of the picture, the next pixels stand in the queue once the dot has fetched. -/
theorem OnRow.fetch {py : Nat} (hset : s.Set p) (h : s.OnRow py p.beam.dot.val p)
    (hd : p.beam.dot.val ≤ 255) :
    (p.beam.dot.val ≤ 247 → (p.fetchFrom s.mem).v.IsAt
      ((s.originX / 8 + 1 + (p.beam.dot.val + 8) / 8) % 64) ((s.originY + py) % 480)) ∧
    (p.fetchFrom s.mem).background =
      (s.rowPixels py (1 + (p.beam.dot.val + 8) / 8)).drop p.beam.dot.val := by
  by_cases h8 : p.beam.dot.val % 8 = 0
  · have hle : p.beam.dot.val ≤ 248 := by omega
    obtain ⟨n, hn⟩ : ∃ n, p.beam.dot.val = 8 * n := ⟨p.beam.dot.val / 8, by omega⟩
    rw [fetchFrom_tile hle h8]
    have hv := h.v hle
    have hq := h.background (by omega)
    rw [hn] at hv hq ⊢
    have hcount : (8 * n + 7) / 8 = n := by omega
    have hcount' : (8 * n + 8) / 8 = n + 1 := by omega
    rw [hcount] at hv hq
    rw [hcount']
    refine ⟨fun hlt => ?_, ?_⟩
    · have h248 : p.beam.dot ≠ 248 := by
        intro h
        have : p.beam.dot.val = 248 := congrArg Fin.val h
        omega
      have hcolumn : ((s.originX / 8 + 1 + n) % 64 + 1) % 64 =
          (s.originX / 8 + 1 + (n + 1)) % 64 := by omega
      dsimp only
      rw [if_neg h248, ← hcolumn]
      exact hv.nextColumn
    · have hcolumn : s.originX / 8 + 1 + n = s.originX / 8 + (n + 1) := by omega
      have hnext : 1 + (n + 1) = n + 2 := by omega
      have hthis : 1 + n = n + 1 := by omega
      rw [hcolumn] at hv
      rw [hthis] at hq
      dsimp only
      rw [hq, hnext]
      exact s.loadNext_rowPixels hset.control hv
  · have hcount : (p.beam.dot.val + 8) / 8 = (p.beam.dot.val + 7) / 8 := by omega
    rw [fetchFrom_idle (fun hc => h8 hc.2) (by omega) (by omega), hcount]
    exact ⟨fun hlt => h.v (by omega), h.background (by omega)⟩

theorem Turned.fetch {row : Nat} (hset : s.Set p) (h : s.Turned row p.beam.dot.val p)
    (hd : 249 ≤ p.beam.dot.val)
    (hrow : ¬(280 ≤ p.beam.dot.val ∧ p.beam.dot.val ≤ 304 ∧
      p.beam.scanline = Beam.preRenderLine)) :
    s.Turned row (p.beam.dot.val + 1) (p.fetchFrom s.mem) := by
  by_cases h321 : p.beam.dot.val = 321
  · have hv := h.before (by omega)
    have hcolumn : (s.originX / 8 % 64 + 1) % 64 = (s.originX / 8 + 1) % 64 := by omega
    rw [fetchFrom_first (Fin.ext h321)]
    refine ⟨fun hle => by omega, fun _ => ⟨?_, s.loadFirst_rowPixels hset.control hv⟩⟩
    rw [← hcolumn]
    exact hv.nextColumn
  · rw [fetchFrom_idle (by omega) hrow h321]
    exact ⟨fun hle => h.before (by omega), fun hle => h.after (by omega)⟩

/-- The last tile of a row turns the scroll to the next one, and dot 321 begins it. -/
theorem OnRow.fetch_turned {py : Nat} (hset : s.Set p) (h : s.OnRow py p.beam.dot.val p)
    (hl : p.beam.scanline ≠ Beam.preRenderLine) (hd : 248 ≤ p.beam.dot.val) :
    s.Turned (py + 1) (p.beam.dot.val + 1) (p.fetchFrom s.mem) := by
  by_cases h248 : p.beam.dot.val = 248
  · have hv := ((h.v (by omega)).withColumnOf hset.t).nextRow
    have hline : ((s.originY + py) % 480 + 1) % 480 = (s.originY + (py + 1)) % 480 := by omega
    have hdot : p.beam.dot = 248 := Fin.ext h248
    rw [hline] at hv
    rw [fetchFrom_tile (by omega) (by omega), if_pos hdot]
    exact ⟨fun _ => hv, fun hle => by omega⟩
  · exact (h.turned (by omega)).fetch hset (by omega) fun hc => hl hc.2.2

/-- The line before the first row takes the scroll over and begins that row. -/
theorem OnPreRender.fetch (hset : s.Set p) (h : s.OnPreRender p.beam.dot.val p)
    (hl : p.beam.scanline = Beam.preRenderLine) :
    s.OnPreRender (p.beam.dot.val + 1) (p.fetchFrom s.mem) where
  column hle hle' := by
    by_cases h248 : p.beam.dot.val = 248
    · have hdot : p.beam.dot = 248 := Fin.ext h248
      rw [fetchFrom_tile (by omega) (by omega), if_pos hdot]
      exact (ScrollAddress.column_nextRow _).trans hset.t.column
    · rw [fetchFrom_idle (by omega) (by omega) (by omega)]
      exact h.column (by omega) (by omega)
  turned hle := by
    by_cases hrow : p.beam.dot.val ≤ 304
    · have hcolumn : p.v.column = s.originX / 8 % 64 := by
        by_cases h280 : p.beam.dot.val = 280
        · exact h.column (by omega) (by omega)
        · exact ((h.turned (by omega)).before (by omega)).column
      rw [fetchFrom_row (by omega) hrow hl]
      refine ⟨fun _ => ?_, fun hle => by omega⟩
      rw [Nat.add_zero]
      exact .withRowOf hcolumn hset.t
    · exact (h.turned (by omega)).fetch hset (by omega) fun hc => hrow hc.2.1

theorem Turned.congr {row dot : Nat} {q : Ppu} (h : s.Turned row dot p) (hv : q.v = p.v)
    (hq : 322 ≤ dot → q.background = p.background) : s.Turned row dot q where
  before hle := hv ▸ h.before hle
  after hle := ⟨hv ▸ (h.after hle).1, (hq hle).trans (h.after hle).2⟩

/-- A row begins with its first tile in the queue. -/
theorem Turned.begin {row dot : Nat} (h : s.Turned row dot p) (hd : 322 ≤ dot) :
    s.OnRow row 0 p where
  v _ := (h.after hd).1
  background _ := (h.after hd).2
  turned hle := by omega

/-- The queue once the dot is over. -/
theorem pipeline_step (hset : s.Set p) (hr : s.mask.rendering = true)
    (hl : p.beam.onRenderLine = true) :
    (p.stepFrom s.mem).v = (p.fetchFrom s.mem).v ∧ (p.stepFrom s.mem).background =
      if p.beam.dot.val < 256 then (p.fetchFrom s.mem).background.tail
      else (p.fetchFrom s.mem).background := by
  have hrendering : p.mask.rendering = true := hset.mask ▸ hr
  have hp := p.pipeline_stepFrom s.mem
  rw [fetchStageFrom_rendering hrendering hl, hrendering, hl] at hp
  by_cases hd : p.beam.dot.val < 256
  · simp only [hd, decide_true, Bool.and_self, if_true] at hp
    rw [if_pos hd]
    exact ⟨congrArg Prod.fst hp, congrArg Prod.snd hp⟩
  · simp only [hd, decide_false, Bool.and_false, Bool.false_eq_true, if_false] at hp
    rw [if_neg hd]
    exact ⟨congrArg Prod.fst hp, congrArg Prod.snd hp⟩

theorem OnRow.step {py : Nat} (hset : s.Set p) (hr : s.mask.rendering = true)
    (h : s.OnRow py p.beam.dot.val p) (hl : p.beam.scanline.val < 240) :
    s.OnRow py (p.beam.dot.val + 1) (p.stepFrom s.mem) := by
  have hpre : p.beam.scanline ≠ Beam.preRenderLine := by
    intro he
    rw [he] at hl
    exact absurd hl (by decide)
  obtain ⟨hv, hq⟩ := pipeline_step hset hr (onRenderLine_of_lt hl)
  refine ⟨fun hle => ?_, fun hle => ?_, fun hle => ?_⟩
  · rw [hv]
    exact (h.fetch hset (by omega)).1 (by omega)
  · rw [hq, if_pos (by omega), (h.fetch hset (by omega)).2, List.tail_drop]
  · exact (h.fetch_turned hset hpre (by omega)).congr hv fun hlate => by
      rw [hq, if_neg (by omega)]

theorem OnPreRender.step (hset : s.Set p) (hr : s.mask.rendering = true)
    (h : s.OnPreRender p.beam.dot.val p) (hl : p.beam.scanline = Beam.preRenderLine) :
    s.OnPreRender (p.beam.dot.val + 1) (p.stepFrom s.mem) := by
  have hline : p.beam.onRenderLine = true := by
    rw [Beam.onRenderLine, hl, beq_self_eq_true, Bool.or_true]
  obtain ⟨hv, hq⟩ := pipeline_step hset hr hline
  have hf := h.fetch hset hl
  refine ⟨fun hle hle' => hv ▸ hf.column hle hle', fun hle => ?_⟩
  exact (hf.turned hle).congr hv fun hlate => by rw [hq, if_neg (by omega)]

/-! The pixel under the beam. -/

theorem sprites_fetched (hset : s.Set p) (hr : s.mask.rendering = true)
    (hl : p.beam.scanline.val < 240)
    (h : 1 ≤ p.beam.dot.val → s.HasSprites p.beam.scanline.val p.sprites) :
    s.HasSprites p.beam.scanline.val (p.fetchedFrom s.mem).sprites := by
  intro px hpx
  have hrendering : p.mask.rendering = true := hset.mask ▸ hr
  have hvisible : p.beam.onVisibleLine = true := decide_eq_true hl
  rw [p.sprites_fetchedFrom, p.sprites_spritesStageFrom, hvisible, hrendering, hset.oam,
    hset.control]
  by_cases hd : p.beam.dot = 0
  · simp only [hd, beq_self_eq_true, Bool.and_self, if_true]
    exact pixels_spritesFrom s.mem s.oam _ _ _ px hpx
  · have hdot : 1 ≤ p.beam.dot.val := Nat.one_le_iff_ne_zero.2 fun he => hd (Fin.ext he)
    have hne : (p.beam.dot == 0) = false := beq_false_of_ne hd
    simp only [hne, Bool.and_false, Bool.false_eq_true, if_false]
    exact h hdot px hpx

theorem background_fetched (hset : s.Set p) (hr : s.mask.rendering = true)
    (hl : p.beam.scanline.val < 240) (hd : p.beam.dot.val < 256)
    (hrow : s.OnRow p.beam.scanline.val p.beam.dot.val p) :
    (p.fetchedFrom s.mem).backgroundAt p.beam.dot.val =
      s.shownBackground p.beam.dot.val p.beam.scanline.val := by
  have hs := p.setting_fetchedFrom s.mem
  simp only [Ppu.setting, Ppu.Setting.mk.injEq] at hs
  obtain ⟨-, hm, hf, -, -, -, -⟩ := hs
  have hfine : (p.fetchedFrom s.mem).fineX.val = s.originX % 8 := hf ▸ hset.fineX
  have hrendering : p.mask.rendering = true := hset.mask ▸ hr
  have hp := p.pipeline_fetchedFrom s.mem
  rw [fetchStageFrom_rendering hrendering (onRenderLine_of_lt hl)] at hp
  have hq : (p.fetchedFrom s.mem).background = (p.fetchFrom s.mem).background :=
    congrArg Prod.snd hp
  rw [Ppu.backgroundAt, shownBackground, hm, hset.mask, hq, (hrow.fetch hset (by omega)).2,
    s.pixel_rowPixels hfine (by omega)]

theorem sprite_fetched (hset : s.Set p) (hr : s.mask.rendering = true)
    (hl : p.beam.scanline.val < 240) (hd : p.beam.dot.val < 256)
    (h : 1 ≤ p.beam.dot.val → s.HasSprites p.beam.scanline.val p.sprites) :
    (p.fetchedFrom s.mem).spriteAt p.beam.dot.val =
      s.shownSprite p.beam.dot.val p.beam.scanline.val := by
  have hm := Ppu.mask_of_setting (p.setting_fetchedFrom s.mem)
  rw [Ppu.spriteAt, shownSprite, hm, hset.mask, Vector.getElem?_eq_getElem hd, Option.getD_some,
    sprites_fetched hset hr hl h _ hd]

/-- The pixel under the beam is the scene's. -/
theorem chosenCell_fetched (hset : s.Set p) (hr : s.mask.rendering = true)
    (hl : p.beam.scanline.val < 240) (hd : p.beam.dot.val < 256)
    (hrow : s.OnRow p.beam.scanline.val p.beam.dot.val p)
    (h : 1 ≤ p.beam.dot.val → s.HasSprites p.beam.scanline.val p.sprites) :
    (p.fetchedFrom s.mem).chosenCell = s.cell p.beam.dot.val p.beam.scanline.val := by
  have hs := p.setting_fetchedFrom s.mem
  have hm := Ppu.mask_of_setting hs
  have hb := Ppu.beam_of_setting hs
  rw [Ppu.chosenCell, hm, hset.mask, if_pos hr, hb, Ppu.composedCell, cell,
    background_fetched hset hr hl hd hrow, sprite_fetched hset hr hl hd h]
  simp only [Ppu.spriteCell, Ppu.backgroundCell, Nat.mul_comm 4]

/-! A dot on the way. -/

theorem Draws.row_step (h : s.Draws p) (hr : s.mask.rendering = true)
    (hl : (p.stepFrom s.mem).beam.scanline.val < 240) :
    s.OnRow (p.stepFrom s.mem).beam.scanline.val (p.stepFrom s.mem).beam.dot.val
      (p.stepFrom s.mem) := by
  have hs := p.beam.scanline.isLt
  obtain ⟨hline, hdot⟩ | ⟨hd, hline, hdot⟩ := p.beam_move s.mem
  · rw [hline] at hl ⊢
    rw [hdot]
    exact (h.row hl).step h.set hr hl
  · rw [hdot]
    by_cases hpre : p.beam.scanline.val = 261
    · have hpre' : p.beam.scanline = Beam.preRenderLine := Fin.ext hpre
      have hturned := ((h.preRender hpre').step h.set hr hpre').turned (by omega)
      rw [hpre] at hline
      rw [hline]
      exact hturned.begin (by omega)
    · have hlt : p.beam.scanline.val < 240 := by omega
      have hturned := ((h.row hlt).step h.set hr hlt).turned (by omega)
      rw [Nat.mod_eq_of_lt (by omega)] at hline
      rw [hline]
      exact hturned.begin (by omega)

theorem Draws.preRender_step (h : s.Draws p) (hr : s.mask.rendering = true)
    (hl : (p.stepFrom s.mem).beam.scanline = Beam.preRenderLine) :
    s.OnPreRender (p.stepFrom s.mem).beam.dot.val (p.stepFrom s.mem) := by
  obtain ⟨hline, hdot⟩ | ⟨-, -, hdot⟩ := p.beam_move s.mem
  · rw [hline] at hl
    rw [hdot]
    exact (h.preRender hl).step h.set hr hl
  · rw [hdot]
    exact ⟨fun hle => by omega, fun hle => by omega⟩

theorem Draws.sprites_step (h : s.Draws p) (hr : s.mask.rendering = true)
    (hl : (p.stepFrom s.mem).beam.scanline.val < 240)
    (hd : 1 ≤ (p.stepFrom s.mem).beam.dot.val) :
    s.HasSprites (p.stepFrom s.mem).beam.scanline.val (p.stepFrom s.mem).sprites := by
  obtain ⟨hline, -⟩ | ⟨-, -, hdot⟩ := p.beam_move s.mem
  · rw [hline] at hl ⊢
    rw [p.sprites_stepFrom]
    exact sprites_fetched h.set hr hl (h.sprites hl)
  · omega

theorem picture_step_blank (h : p.beam.pixel? = none) :
    (p.stepFrom s.mem).picture = p.picture := by
  have hb := Ppu.beam_of_setting (p.setting_fetchedFrom s.mem)
  rw [p.picture_stepFrom, Ppu.picture_renderFrom, hb, h, Ppu.picture_fetchedFrom]

theorem Draws.picture_step_pixel (h : s.Draws p) (hr : s.mask.rendering = true)
    (hl : p.beam.scanline.val < 240) (hd : p.beam.dot.val < 256) :
    (p.stepFrom s.mem).picture = p.picture.set (p.beam.scanline.val * 256 + p.beam.dot.val)
      (s.color p.beam.dot.val p.beam.scanline.val) (by omega) := by
  have hs := p.setting_fetchedFrom s.mem
  have hpixel : p.beam.pixel? = some ⟨p.beam.scanline.val * 256 + p.beam.dot.val, by omega⟩ :=
    dif_pos ⟨hl, hd⟩
  rw [p.picture_stepFrom, Ppu.picture_renderFrom, Ppu.beam_of_setting hs, hpixel]
  dsimp only [Ppu.drawPixel]
  rw [Ppu.mask_of_setting hs, h.set.mask, Ppu.picture_fetchedFrom,
    chosenCell_fetched h.set hr hl hd (h.row hl) (h.sprites hl)]
  rfl

theorem Draws.picture_step (h : s.Draws p) (hr : s.mask.rendering = true) (i : Nat)
    (hi : i < 256 * 240) (hdone : i < pixelsDone (p.stepFrom s.mem).beam) :
    (p.stepFrom s.mem).picture[i] = s.color (i % 256) (i / 256) := by
  have hline := p.beam.scanline.isLt
  have hbeam := p.beam_move s.mem
  unfold pixelsDone at hdone
  by_cases hp : p.beam.scanline.val < 240 ∧ p.beam.dot.val < 256
  · obtain ⟨hl, hd⟩ := hp
    simp only [h.picture_step_pixel hr hl hd, Vector.getElem_set]
    by_cases hthis : p.beam.scanline.val * 256 + p.beam.dot.val = i
    · have hcolumn : i % 256 = p.beam.dot.val := by omega
      have hrow : i / 256 = p.beam.scanline.val := by omega
      rw [if_pos hthis, hcolumn, hrow]
    · rw [if_neg hthis]
      refine h.picture i hi ?_
      unfold pixelsDone
      rw [Fin.ext_iff] at hbeam
      split at hdone <;> split <;> omega
  · have hpixel : p.beam.pixel? = none := dif_neg hp
    simp only [picture_step_blank hpixel]
    refine h.picture i hi ?_
    unfold pixelsDone
    rw [Fin.ext_iff] at hbeam
    split at hdone <;> split <;> omega

theorem Draws.step (h : s.Draws p) (hr : s.mask.rendering = true) :
    s.Draws (p.stepFrom s.mem) where
  set := h.set.step
  row := h.row_step hr
  sprites := h.sprites_step hr
  preRender := h.preRender_step hr
  picture := h.picture_step hr

end
end Scene
end NesConsole
