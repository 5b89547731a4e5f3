import NesConsole.Proofs.Picture.Timing

/-! Over a memory that answers each address with the same byte every time, no dot fails and each is
a function of the picture unit alone. -/
namespace NesConsole
namespace Ppu

def tileFrom (mem : UInt16 → UInt8) (p : Ppu) : Tile :=
  let address := p.control.backgroundTable +
    UInt16.ofNat ((mem p.v.tileAddress).toNat * 16 + p.v.fineY.val)
  ⟨⟨mem address, mem (address + 8)⟩, p.v.paletteIn (mem p.v.attributeAddress)⟩

def fetchFrom (mem : UInt16 → UInt8) (p : Ppu) : Ppu :=
  if p.beam.dot.val ≤ 248 ∧ p.beam.dot.val % 8 = 0 then
    { p with
      background := p.background.loadNext (tileFrom mem p)
      v := if p.beam.dot = 248 then (p.v.withColumnOf p.t).nextRow else p.v.nextColumn }
  else if 280 ≤ p.beam.dot.val ∧ p.beam.dot.val ≤ 304 ∧ p.beam.scanline = Beam.preRenderLine then
    { p with v := p.v.withRowOf p.t }
  else if p.beam.dot = 321 then
    { p with background := .loadFirst (tileFrom mem p), v := p.v.nextColumn }
  else p

def drawFrom (mem : UInt16 → UInt8) (oam : ObjectMemory) (scanline height : Nat) (table : UInt16)
    (line : SpriteLine) (i : Fin 64) : SpriteLine :=
  let address := (oam.entry i).patternAddress scanline height table
  { line with count := line.count + 1 }.paint i (oam.entry i)
    ⟨mem (UInt16.ofNat address), mem (UInt16.ofNat (address + 8))⟩

def spritesFrom (mem : UInt16 → UInt8) (oam : ObjectMemory) (scanline height : Nat)
    (table : UInt16) : SpriteLine :=
  ((SpriteLine.covering oam scanline height).take 8).foldl
    (drawFrom mem oam scanline height table) .empty

def prepareFrom (mem : UInt16 → UInt8) (p : Ppu) : Ppu :=
  if p.mask.rendering then
    let drawn := { p with
      sprites := spritesFrom mem p.oam p.beam.scanline.val p.control.spriteHeight
        p.control.spriteTable }
    if 8 < (SpriteLine.covering p.oam p.beam.scanline.val p.control.spriteHeight).length then
      { drawn with status := { drawn.status with spriteOverflow := true } }
    else drawn
  else { p with sprites := .empty }

def chosenCell (p : Ppu) : UInt16 :=
  if p.mask.rendering then p.composedCell p.beam.dot.val else p.blankCell

def noteHit (p : Ppu) : Ppu :=
  if p.mask.rendering then
    if p.hitsSpriteZero p.beam.dot.val then
      { p with status := { p.status with spriteZeroHit := true } }
    else p
  else p

def renderFrom (mem : UInt16 → UInt8) (p : Ppu) : Ppu :=
  match p.beam.pixel? with
  | none => p
  | some i => drawPixel i (mem p.chosenCell) p.noteHit

def spritesStageFrom (mem : UInt16 → UInt8) (p : Ppu) : Ppu :=
  if p.beam.onVisibleLine && p.beam.dot == 0 then prepareFrom mem p else p

def fetchStageFrom (mem : UInt16 → UInt8) (p : Ppu) : Ppu :=
  if p.mask.rendering && p.beam.onRenderLine then fetchFrom mem p else p

def shiftStageFrom (p : Ppu) : Ppu :=
  if p.mask.rendering && p.beam.onRenderLine && decide (p.beam.dot.val < 256) then
    shiftBackground p
  else p

/-- What a dot leaves as it is, and the beam, which moves at its end. -/
structure Setting where
  control : Control
  mask : Mask
  fineX : Fin 8
  t : ScrollAddress
  oam : ObjectMemory
  beam : Beam
  oddFrame : Bool

def setting (p : Ppu) : Setting :=
  ⟨p.control, p.mask, p.fineX, p.t, p.oam, p.beam, p.oddFrame⟩

def pipeline (p : Ppu) : ScrollAddress × BackgroundQueue := (p.v, p.background)

theorem mask_of_setting {p q : Ppu} (h : p.setting = q.setting) : p.mask = q.mask :=
  congrArg Setting.mask h

theorem beam_of_setting {p q : Ppu} (h : p.setting = q.setting) : p.beam = q.beam :=
  congrArg Setting.beam h

/-! What each stage leaves as it is. -/

theorem beginDot_leaves (p : Ppu) : (beginDot p).setting = p.setting ∧
    (beginDot p).pipeline = p.pipeline ∧ (beginDot p).sprites = p.sprites ∧
    (beginDot p).picture = p.picture := by
  unfold beginDot
  dsimp only
  split
  · exact ⟨rfl, rfl, rfl, rfl⟩
  · split <;> exact ⟨rfl, rfl, rfl, rfl⟩

theorem spritesStageFrom_leaves (mem : UInt16 → UInt8) (p : Ppu) :
    (spritesStageFrom mem p).setting = p.setting ∧
    (spritesStageFrom mem p).pipeline = p.pipeline ∧
    (spritesStageFrom mem p).picture = p.picture := by
  unfold spritesStageFrom prepareFrom
  dsimp only
  split
  · split
    · split <;> exact ⟨rfl, rfl, rfl⟩
    · exact ⟨rfl, rfl, rfl⟩
  · exact ⟨rfl, rfl, rfl⟩

theorem fetchStageFrom_leaves (mem : UInt16 → UInt8) (p : Ppu) :
    (fetchStageFrom mem p).setting = p.setting ∧ (fetchStageFrom mem p).sprites = p.sprites ∧
    (fetchStageFrom mem p).picture = p.picture := by
  unfold fetchStageFrom fetchFrom
  split
  · split
    · exact ⟨rfl, rfl, rfl⟩
    · split
      · exact ⟨rfl, rfl, rfl⟩
      · split <;> exact ⟨rfl, rfl, rfl⟩
  · exact ⟨rfl, rfl, rfl⟩

theorem noteHit_leaves (p : Ppu) : p.noteHit.setting = p.setting ∧
    p.noteHit.pipeline = p.pipeline ∧ p.noteHit.sprites = p.sprites ∧
    p.noteHit.picture = p.picture := by
  unfold noteHit
  split
  · split <;> exact ⟨rfl, rfl, rfl, rfl⟩
  · exact ⟨rfl, rfl, rfl, rfl⟩

theorem renderFrom_leaves (mem : UInt16 → UInt8) (p : Ppu) :
    (renderFrom mem p).setting = p.setting ∧ (renderFrom mem p).pipeline = p.pipeline ∧
    (renderFrom mem p).sprites = p.sprites := by
  obtain ⟨hsetting, hpipeline, hsprites, -⟩ := p.noteHit_leaves
  unfold renderFrom
  split
  · exact ⟨rfl, rfl, rfl⟩
  · exact ⟨hsetting, hpipeline, hsprites⟩

theorem shiftStageFrom_leaves (p : Ppu) : (shiftStageFrom p).setting = p.setting ∧
    (shiftStageFrom p).sprites = p.sprites ∧ (shiftStageFrom p).picture = p.picture := by
  unfold shiftStageFrom
  split <;> exact ⟨rfl, rfl, rfl⟩

theorem advance_leaves (rendering : Bool) (p : Ppu) :
    (advance rendering p).pipeline = p.pipeline ∧ (advance rendering p).sprites = p.sprites ∧
    (advance rendering p).picture = p.picture := by
  unfold advance
  split <;> exact ⟨rfl, rfl, rfl⟩

/-- The fetches know the picture unit by its setting and its pipeline. -/
theorem pipeline_fetchStageFrom (mem : UInt16 → UInt8) {p q : Ppu} (hs : p.setting = q.setting)
    (hp : p.pipeline = q.pipeline) :
    (fetchStageFrom mem p).pipeline = (fetchStageFrom mem q).pipeline := by
  simp only [setting, Setting.mk.injEq] at hs
  simp only [pipeline, Prod.mk.injEq] at hp
  obtain ⟨hc, hm, -, ht, -, hb, -⟩ := hs
  obtain ⟨hv, hq⟩ := hp
  have htile : tileFrom mem p = tileFrom mem q := by
    unfold tileFrom
    rw [hc, hv]
  unfold fetchStageFrom fetchFrom
  rw [hm, hb, hv, hq, ht, htile]
  split
  · split
    · rfl
    · split
      · rfl
      · split
        · rfl
        · exact Prod.ext hv hq
  · exact Prod.ext hv hq

theorem sprites_spritesStageFrom (mem : UInt16 → UInt8) (p : Ppu) :
    (spritesStageFrom mem p).sprites =
      if p.beam.onVisibleLine && p.beam.dot == 0 then
        if p.mask.rendering then spritesFrom mem p.oam p.beam.scanline.val p.control.spriteHeight
          p.control.spriteTable
        else .empty
      else p.sprites := by
  unfold spritesStageFrom prepareFrom
  dsimp only
  split
  · split
    · split <;> rfl
    · rfl
  · rfl

theorem picture_renderFrom (mem : UInt16 → UInt8) (p : Ppu) :
    (renderFrom mem p).picture = match p.beam.pixel? with
      | none => p.picture
      | some i => (drawPixel i (mem p.chosenCell) p).picture := by
  obtain ⟨hsetting, -, -, hpicture⟩ := p.noteHit_leaves
  unfold renderFrom
  split
  · rfl
  · dsimp only [drawPixel]
    rw [mask_of_setting hsetting, hpicture]

def fetchedFrom (mem : UInt16 → UInt8) (p : Ppu) : Ppu :=
  fetchStageFrom mem (spritesStageFrom mem (beginDot p))

theorem setting_fetchedFrom (mem : UInt16 → UInt8) (p : Ppu) :
    (fetchedFrom mem p).setting = p.setting := by
  rw [fetchedFrom, (fetchStageFrom_leaves mem _).1, (spritesStageFrom_leaves mem _).1,
    p.beginDot_leaves.1]

theorem pipeline_fetchedFrom (mem : UInt16 → UInt8) (p : Ppu) :
    (fetchedFrom mem p).pipeline = (fetchStageFrom mem p).pipeline := by
  obtain ⟨hsetting, hpipeline, -⟩ := spritesStageFrom_leaves mem (beginDot p)
  obtain ⟨hsetting', hpipeline', -⟩ := p.beginDot_leaves
  exact pipeline_fetchStageFrom mem (hsetting.trans hsetting') (hpipeline.trans hpipeline')

theorem sprites_fetchedFrom (mem : UInt16 → UInt8) (p : Ppu) :
    (fetchedFrom mem p).sprites = (spritesStageFrom mem p).sprites := by
  obtain ⟨hs, -, hsprites, -⟩ := p.beginDot_leaves
  simp only [setting, Setting.mk.injEq] at hs
  obtain ⟨hc, hm, -, -, ho, hb, -⟩ := hs
  rw [fetchedFrom, (fetchStageFrom_leaves mem _).2.1, sprites_spritesStageFrom,
    sprites_spritesStageFrom, hc, hm, ho, hb, hsprites]

theorem picture_fetchedFrom (mem : UInt16 → UInt8) (p : Ppu) :
    (fetchedFrom mem p).picture = p.picture := by
  rw [fetchedFrom, (fetchStageFrom_leaves mem _).2.2, (spritesStageFrom_leaves mem _).2.2,
    p.beginDot_leaves.2.2.2]

/-! A dot as its stages in turn. -/

def stepFrom (mem : UInt16 → UInt8) (p : Ppu) : Ppu :=
  advance p.mask.rendering (shiftStageFrom (renderFrom mem (fetchedFrom mem p)))

theorem setting_rendered (mem : UInt16 → UInt8) (p : Ppu) :
    (renderFrom mem (fetchedFrom mem p)).setting = p.setting := by
  rw [(renderFrom_leaves mem _).1, setting_fetchedFrom]

theorem sprites_stepFrom (mem : UInt16 → UInt8) (p : Ppu) :
    (stepFrom mem p).sprites = (fetchedFrom mem p).sprites := by
  rw [stepFrom, (advance_leaves _ _).2.1, (shiftStageFrom_leaves _).2.1,
    (renderFrom_leaves mem _).2.2]

theorem picture_stepFrom (mem : UInt16 → UInt8) (p : Ppu) :
    (stepFrom mem p).picture = (renderFrom mem (fetchedFrom mem p)).picture := by
  rw [stepFrom, (advance_leaves _ _).2.2, (shiftStageFrom_leaves _).2.2]

theorem pipeline_stepFrom (mem : UInt16 → UInt8) (p : Ppu) : (stepFrom mem p).pipeline =
    if p.mask.rendering && p.beam.onRenderLine && decide (p.beam.dot.val < 256) then
      ((fetchStageFrom mem p).v, (fetchStageFrom mem p).background.shift)
    else ((fetchStageFrom mem p).v, (fetchStageFrom mem p).background) := by
  have hs := setting_rendered mem p
  have hp : (renderFrom mem (fetchedFrom mem p)).pipeline =
      ((fetchStageFrom mem p).v, (fetchStageFrom mem p).background) := by
    rw [(renderFrom_leaves mem _).2.1, pipeline_fetchedFrom]
    rfl
  have hv := congrArg Prod.fst hp
  have hq := congrArg Prod.snd hp
  rw [stepFrom, (advance_leaves _ _).1, shiftStageFrom, mask_of_setting hs, beam_of_setting hs]
  split
  · exact Prod.ext hv (congrArg BackgroundQueue.shift hq)
  · exact hp

theorem setting_advance (rendering : Bool) (p : Ppu) : (advance rendering p).setting =
    { p.setting with
      beam := (advance rendering p).beam, oddFrame := (advance rendering p).oddFrame } := by
  unfold advance
  split <;> rfl

theorem setting_stepFrom (mem : UInt16 → UInt8) (p : Ppu) : (stepFrom mem p).setting =
    { p.setting with
      beam := (stepFrom mem p).beam, oddFrame := (stepFrom mem p).oddFrame } := by
  rw [stepFrom, setting_advance, (shiftStageFrom_leaves _).1, setting_rendered]

theorem beam_stepFrom (mem : UInt16 → UInt8) (p : Ppu) : (stepFrom mem p).beam =
    if p.oddFrame && p.mask.rendering && p.beam == ⟨Beam.preRenderLine, 339⟩ then ⟨0, 0⟩
    else p.beam.next := by
  have hs := (shiftStageFrom_leaves (renderFrom mem (fetchedFrom mem p))).1
  rw [setting_rendered] at hs
  have ho := congrArg Setting.oddFrame hs
  have hb := congrArg Setting.beam hs
  simp only [setting] at ho hb
  rw [stepFrom, advance, ho, hb]
  split <;> rfl

/-- The beam moves along its line or to the start of the next one. -/
theorem beam_move (mem : UInt16 → UInt8) (p : Ppu) :
    ((stepFrom mem p).beam.scanline = p.beam.scanline ∧
      (stepFrom mem p).beam.dot.val = p.beam.dot.val + 1) ∨
    (339 ≤ p.beam.dot.val ∧
      (stepFrom mem p).beam.scanline.val = (p.beam.scanline.val + 1) % 262 ∧
      (stepFrom mem p).beam.dot.val = 0) := by
  have hd := p.beam.dot.isLt
  rw [p.beam_stepFrom]
  split
  case isTrue h =>
    simp only [Bool.and_eq_true, beq_iff_eq] at h
    rw [h.2]
    exact .inr ⟨by decide, by decide, rfl⟩
  case isFalse h =>
    by_cases h340 : p.beam.dot.val < 340
    · exact .inl (Beam.next_of_lt h340)
    · exact .inr ⟨by omega, Beam.next_of_last (by omega)⟩

section
variable {β : Type} [Bus β] {good : β → Prop} {mem : UInt16 → UInt8}

theorem does_fetchTile (hmem : Steady mem good) (p : Ppu) :
    Does good (fetchTile : EStateM BusError (Wired Ppu β) Tile) p (tileFrom mem p) p := by
  refine .bind (.look _) ?_
  refine .bind (.read (hmem p.v.tileAddress)) ?_
  refine .bind (.read (hmem p.v.attributeAddress)) ?_
  refine .bind (.look _) ?_
  refine .bind (.read (hmem _)) ?_
  exact .bind (.read (hmem _)) .pure

theorem does_fetchBackground (hmem : Steady mem good) (p : Ppu) :
    Does good (fetchBackground : EStateM BusError (Wired Ppu β) Unit) p () (fetchFrom mem p) := by
  have htile := does_fetchTile hmem p
  refine .bind (.look _) ?_
  dsimp only [fetchFrom]
  split
  · exact .bind htile (.update _)
  · split
    · exact .update _
    · split
      · exact .bind htile (.update _)
      · exact .pure

/-- A row of a sprite lies in the pattern tables, both planes of it. -/
theorem patternAddress_lt {e : SpriteEntry} {scanline : Nat} (c : Control)
    (h : e.covers scanline c.spriteHeight = true) :
    e.patternAddress scanline c.spriteHeight c.spriteTable + 8 < 0x2000 := by
  have htile := e.tile.toNat_lt
  have hheight : c.spriteHeight = 16 ∨ c.spriteHeight = 8 := by
    unfold Control.spriteHeight
    split <;> simp
  have htable : c.spriteTable.toNat ≤ 0x1000 := by
    unfold Control.spriteTable
    split <;> decide
  simp only [SpriteEntry.covers, Bool.and_eq_true, decide_eq_true_eq] at h
  have hrow : (if e.flipsDown then c.spriteHeight - 1 - (scanline - 1 - e.y.toNat)
      else scanline - 1 - e.y.toNat) < c.spriteHeight := by
    split <;> omega
  unfold SpriteEntry.patternAddress
  dsimp only
  generalize (if e.flipsDown then c.spriteHeight - 1 - (scanline - 1 - e.y.toNat)
    else scanline - 1 - e.y.toNat) = row at hrow ⊢
  split <;> omega

theorem does_readPattern (hmem : Steady mem good) {address : Nat} (h : address < 0x10000)
    (line : SpriteLine) :
    Does good (SpriteLine.readPattern address : EStateM BusError (Wired SpriteLine β) UInt8) line
      (mem (UInt16.ofNat address)) line :=
  .pos h (.read (hmem _))

theorem does_draw (hmem : Steady mem good) (oam : ObjectMemory) (scanline : Nat) (c : Control)
    {i : Fin 64} (hi : i ∈ (SpriteLine.covering oam scanline c.spriteHeight).take 8)
    (line : SpriteLine) :
    Does good (SpriteLine.draw (β := β) oam scanline c.spriteHeight c.spriteTable i) line ()
      (drawFrom mem oam scanline c.spriteHeight c.spriteTable line i) := by
  have hcovers : (oam.entry i).covers scanline c.spriteHeight = true :=
    (List.mem_filter.1 (List.mem_of_mem_take hi)).2
  have haddress := patternAddress_lt c hcovers
  exact .bind (.update _) (.bind (does_readPattern hmem (by omega) _)
    (.bind (does_readPattern hmem (by omega) _) (.update _)))

theorem does_evaluate (hmem : Steady mem good) (oam : ObjectMemory) (scanline : Fin 262)
    (c : Control) (line : SpriteLine) :
    Does good (SpriteLine.evaluate (β := β) oam scanline.val c.spriteHeight c.spriteTable) line
      (decide (8 < (SpriteLine.covering oam scanline.val c.spriteHeight).length))
      (spritesFrom mem oam scanline.val c.spriteHeight c.spriteTable) := by
  have hreach : ((List.finRange 64).all fun i => (oam.entry i).inReach scanline.val) = true := by
    rw [List.all_eq_true]
    intro i _
    have := scanline.isLt
    simp only [SpriteEntry.inReach, Bool.or_eq_true, decide_eq_true_eq]
    omega
  exact .pos hreach (.bind (.update _)
    (.bind (.forM fun i hi => does_draw hmem oam scanline.val c hi) .pure))

theorem does_prepareSprites (hmem : Steady mem good) (p : Ppu) :
    Does good (prepareSprites : EStateM BusError (Wired Ppu β) Unit) p ()
      (prepareFrom mem p) := by
  have hevaluate := does_evaluate (β := β) hmem p.oam p.beam.scanline p.control p.sprites
  refine .bind (.look _) ?_
  dsimp only [prepareFrom]
  split
  · refine .bind (.look _) (.bind (.onPart hevaluate) ?_)
    by_cases h8 : 8 < (SpriteLine.covering p.oam p.beam.scanline.val
        p.control.spriteHeight).length
    · rw [if_pos h8]
      exact .pos (decide_eq_true h8) (.update _)
    · rw [if_neg h8]
      exact .neg (by simpa using h8) .pure
  · exact .update _

omit [Bus β] in
theorem does_chooseCell (p : Ppu) :
    Does good (chooseCell p.beam.dot.val : EStateM BusError (Wired Ppu β) UInt16) p p.chosenCell
      p.noteHit := by
  refine .bind (.look _) ?_
  unfold chosenCell noteHit
  split
  · refine .bind (.look _) ?_
    split
    · exact .bind (.update _) (.look _)
    · exact .look _
  · exact .look _

theorem does_renderPixel (hmem : Steady mem good) (p : Ppu) :
    Does good (renderPixel : EStateM BusError (Wired Ppu β) Unit) p () (renderFrom mem p) := by
  refine .bind (.look _) ?_
  unfold renderFrom
  cases p.beam.pixel? with
  | none => exact .pure
  | some i => exact .bind (does_chooseCell p) (.bind (.read (hmem _)) (.update _))

theorem does_spriteStage (hmem : Steady mem good) (p : Ppu) :
    Does good (spriteStage p.beam : EStateM BusError (Wired Ppu β) Unit) p ()
      (spritesStageFrom mem p) := by
  unfold spriteStage spritesStageFrom
  split
  · exact does_prepareSprites hmem p
  · exact .pure

theorem does_fetchStage (hmem : Steady mem good) (p : Ppu) :
    Does good (fetchStage p.mask.rendering p.beam : EStateM BusError (Wired Ppu β) Unit) p ()
      (fetchStageFrom mem p) := by
  unfold fetchStage fetchStageFrom
  split
  · exact does_fetchBackground hmem p
  · exact .pure

omit [Bus β] in
theorem does_shiftStage (p : Ppu) :
    Does good (shiftStage p.mask.rendering p.beam : EStateM BusError (Wired Ppu β) Unit) p ()
      (shiftStageFrom p) := by
  unfold shiftStage shiftStageFrom
  split
  · exact .update _
  · exact .pure

/-- A dot as a function of the picture unit. -/
theorem does_step (hmem : Steady mem good) (p : Ppu) :
    Does good (step : EStateM BusError (Wired Ppu β) Tick) p p.tick (stepFrom mem p) := by
  rw [step_stages]
  have hsprites := (spritesStageFrom_leaves mem (beginDot p)).1
  have hrender := (setting_rendered mem p).trans p.beginDot_leaves.1.symm
  have hdoesFetch := does_fetchStage (β := β) hmem (spritesStageFrom mem (beginDot p))
  rw [mask_of_setting hsprites, beam_of_setting hsprites] at hdoesFetch
  have hdoesShift : Does good _ _ _ _ :=
    does_shiftStage (β := β) (renderFrom mem (fetchedFrom mem p))
  rw [mask_of_setting hrender, beam_of_setting hrender] at hdoesShift
  have hstages : Does good (drawStages (β := β) (beginDot p).mask.rendering (beginDot p).beam)
      (beginDot p) () (shiftStageFrom (renderFrom mem (fetchedFrom mem p))) :=
    .bind (does_spriteStage hmem _) (.bind hdoesFetch (.bind (does_renderPixel hmem _) hdoesShift))
  rw [stepFrom, ← beginDot_mask]
  refine .bind (.look _) (.bind (.update _) ?_)
  refine .bind (.look _) (.bind (.look _) ?_)
  exact .bind hstages (.bind (.update _) .pure)

end
end Ppu
end NesConsole
