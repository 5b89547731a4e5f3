import NesConsole.Proofs.Picture.MemoryBus
import NesConsole.Proofs.Picture.Screen

/-! The status register as a matter of history. Whatever is done to a picture unit between its dots,
each flag stands exactly when something raised it since the last thing that clears it. -/
namespace NesConsole
open MemoryBus (byteAt)

/-- A tile behind the first eight pixels does not show yet. -/
theorem BackgroundQueue.pixel_loadNext (t : Tile) (q : BackgroundQueue) (fineX : Fin 8) :
    (q.loadNext t).pixel fineX = q.pixel fineX := by
  have hfine := fineX.isLt
  have hpad (l : List BackgroundPixel) (i : Nat) :
      (l.rightpad 8 {})[i]?.getD {} = l[i]?.getD {} := by
    unfold List.rightpad
    by_cases h : i < l.length
    · rw [List.getElem?_append_left h]
    · have hnone : l[i]? = none := List.getElem?_eq_none (by omega)
      rw [List.getElem?_append_right (by omega), hnone, List.getElem?_replicate]
      split <;> rfl
  unfold BackgroundQueue.pixel BackgroundQueue.loadNext
  rw [List.getElem?_append_left (by simp only [List.length_rightpad]; omega), hpad,
    List.getElem?_take_of_lt hfine]

namespace Ppu

/-! ### The status after a dot -/

def crowded (p : Ppu) : Bool :=
  p.beam.onVisibleLine && p.beam.dot == 0 && p.mask.rendering &&
    decide (8 < (SpriteLine.covering p.oam p.beam.scanline.val p.control.spriteHeight).length)

theorem status_beginDot (p : Ppu) : (beginDot p).status =
    { spriteOverflow := p.status.spriteOverflow && p.beam != .flagsEnd
      spriteZeroHit := p.status.spriteZeroHit && p.beam != .flagsEnd
      vblank := p.beam == .vblankStart || (p.status.vblank && p.beam != .flagsEnd) } := by
  have hne : Beam.vblankStart ≠ Beam.flagsEnd := by decide
  unfold beginDot
  by_cases hs : p.beam = .vblankStart
  · simp [hs, hne]
  · by_cases he : p.beam = .flagsEnd
    · simp [he, hne.symm]
    · have hs' : (p.beam == .vblankStart) = false := beq_false_of_ne hs
      have he' : (p.beam != .flagsEnd) = true := bne_iff_ne.2 he
      simp [hs, he, hs', he']

theorem status_spritesStageFrom (mem : UInt16 → UInt8) (p : Ppu) :
    (spritesStageFrom mem p).status =
      { p.status with spriteOverflow := p.status.spriteOverflow || p.crowded } := by
  unfold spritesStageFrom prepareFrom crowded
  dsimp only
  cases p.beam.onVisibleLine && p.beam.dot == 0 with
  | false => simp
  | true =>
    cases p.mask.rendering with
    | false => simp
    | true =>
      simp only [if_true, Bool.and_self, Bool.true_and]
      by_cases h8 : 8 < (SpriteLine.covering p.oam p.beam.scanline.val
          p.control.spriteHeight).length
      · simp [h8]
      · simp [h8]

theorem status_fetchStageFrom (mem : UInt16 → UInt8) (p : Ppu) :
    (fetchStageFrom mem p).status = p.status := by
  unfold fetchStageFrom fetchFrom
  split
  · split
    · rfl
    · split
      · rfl
      · split <;> rfl
  · rfl

theorem status_renderFrom (mem : UInt16 → UInt8) (p : Ppu) : (renderFrom mem p).status =
    { p.status with
      spriteZeroHit := p.status.spriteZeroHit ||
        (p.beam.pixel?.isSome && p.mask.rendering && p.hitsSpriteZero p.beam.dot.val) } := by
  unfold renderFrom noteHit
  cases p.beam.pixel? with
  | none => simp
  | some i =>
    cases p.mask.rendering with
    | false => simp [drawPixel]
    | true => cases h : p.hitsSpriteZero p.beam.dot.val <;> simp [drawPixel]

theorem status_advance (rendering : Bool) (p : Ppu) : (advance rendering p).status = p.status := by
  unfold advance
  split <;> rfl

theorem status_stepFrom (mem : UInt16 → UInt8) (p : Ppu) : (stepFrom mem p).status =
    { spriteOverflow := (p.status.spriteOverflow && p.beam != .flagsEnd) || p.crowded
      spriteZeroHit := (p.status.spriteZeroHit && p.beam != .flagsEnd) ||
        (p.beam.pixel?.isSome && p.mask.rendering &&
          (fetchedFrom mem p).hitsSpriteZero p.beam.dot.val)
      vblank := p.beam == .vblankStart || (p.status.vblank && p.beam != .flagsEnd) } := by
  have hs := p.setting_fetchedFrom mem
  have hshift (q : Ppu) : (shiftStageFrom q).status = q.status := by
    unfold shiftStageFrom
    split <;> rfl
  have hbegin := p.beginDot_leaves.1
  have hcrowded : (beginDot p).crowded = p.crowded := by
    simp only [setting, Setting.mk.injEq] at hbegin
    obtain ⟨hc, hm, -, -, ho, hb, -⟩ := hbegin
    rw [crowded, hc, hm, ho, hb]
    rfl
  have hfetched : (fetchedFrom mem p).status =
      { (beginDot p).status with
        spriteOverflow := (beginDot p).status.spriteOverflow || p.crowded } := by
    rw [fetchedFrom, status_fetchStageFrom, status_spritesStageFrom, hcrowded]
  rw [stepFrom, status_advance, hshift, status_renderFrom, mask_of_setting hs, beam_of_setting hs,
    hfetched, status_beginDot]

end Ppu

/-! ### The first entry of object memory -/

section
variable (oam : ObjectMemory) (scanline height : Nat)

/-- Where the first entry covers a line it is the first of those that do. -/
theorem SpriteLine.covering_first : ∃ rest : List (Fin 64), (∀ i ∈ rest, i ≠ 0) ∧
    covering oam scanline height =
      if (oam.entry 0).covers scanline height then 0 :: rest else rest := by
  refine ⟨((List.finRange 63).map Fin.succ).filter fun i => (oam.entry i).covers scanline height,
    fun i hi => ?_, ?_⟩
  · obtain ⟨j, -, rfl⟩ := List.mem_map.1 (List.mem_filter.1 hi).1
    exact Fin.succ_ne_zero j
  · rw [covering, List.finRange_succ, List.filter_cons]

theorem spriteZero_find {l : List (Fin 64)} (h : ∀ i ∈ l, i ≠ 0) (row : Fin 64 → PatternRow)
    (x : Nat) : (((l.map fun i => (oam.entry i).pixelAt i (row i) x).find?
      SpritePixel.isOpaque).getD {}).spriteZero = false := by
  cases hf : (l.map fun i => (oam.entry i).pixelAt i (row i) x).find? SpritePixel.isOpaque with
  | none => rfl
  | some p =>
    obtain ⟨i, hi, rfl⟩ := List.mem_map.1 (List.mem_of_find?_eq_some hf)
    simp only [Option.getD_some, SpriteEntry.pixelAt]
    split
    · exact beq_false_of_ne (h i hi)
    · rfl

/-- The pixel that belongs to the first entry is that entry's own, wherever it is opaque. -/
theorem spriteColumn_zero (mem : UInt16 → UInt8) (table : UInt16) (x : Nat) :
    ((spriteColumn mem oam scanline height table x).spriteZero &&
      (spriteColumn mem oam scanline height table x).isOpaque) =
      ((oam.entry 0).covers scanline height && ((oam.entry 0).pixelAt 0
        (oam.rowFrom mem scanline height table 0) x).isOpaque) := by
  obtain ⟨rest, hrest, hcovering⟩ := SpriteLine.covering_first oam scanline height
  have hlater (n : Nat) := spriteZero_find oam
    (fun i (hi : i ∈ rest.take n) => hrest i (List.mem_of_mem_take hi))
    (oam.rowFrom mem scanline height table) x
  unfold spriteColumn
  rw [hcovering]
  cases (oam.entry 0).covers scanline height with
  | false =>
    simp only [Bool.false_eq_true, if_false, hlater 8, Bool.false_and]
  | true =>
    simp only [if_true, List.take_succ_cons, List.map_cons, List.find?_cons, Bool.true_and]
    cases hopaque : ((oam.entry 0).pixelAt 0 (oam.rowFrom mem scanline height table 0)
        x).isOpaque with
    | false => simp only [hlater 7, Bool.false_and]
    | true =>
      simp only [Option.getD_some, hopaque, Bool.and_true]
      unfold SpriteEntry.pixelAt at hopaque ⊢
      split at hopaque
      case isTrue hx =>
        rw [if_pos hx]
        rfl
      case isFalse => cases hopaque

end

namespace Ppu

def lineSprites (mem : UInt16 → UInt8) (p : Ppu) : SpriteLine :=
  if p.mask.rendering then
    spritesFrom mem p.oam p.beam.scanline.val p.control.spriteHeight p.control.spriteTable
  else .empty

/-- The color of the first entry of object memory in column `x` of the line under the beam, 0 where
it does not show. -/
def zeroColor (mem : UInt16 → UInt8) (p : Ppu) (x : Nat) : Fin 4 :=
  let entry := p.oam.entry 0
  let height := p.control.spriteHeight
  if p.mask.rendering && entry.covers p.beam.scanline.val height then
    (entry.pixelAt 0
      (p.oam.rowFrom mem p.beam.scanline.val height p.control.spriteTable 0) x).color
  else 0

def ShowsFirst (mem : UInt16 → UInt8) (p : Ppu) (line : SpriteLine) : Prop :=
  ∀ x, (hx : x < 256) →
    (line.pixels[x].spriteZero && line.pixels[x].isOpaque) = (p.zeroColor mem x != 0)

theorem showsFirst_lineSprites (mem : UInt16 → UInt8) (p : Ppu) :
    p.ShowsFirst mem (p.lineSprites mem) := by
  intro x hx
  unfold lineSprites zeroColor
  cases p.mask.rendering with
  | false => simp [SpriteLine.empty]
  | true =>
    have hzero := spriteColumn_zero p.oam p.beam.scanline.val p.control.spriteHeight mem
      p.control.spriteTable x
    simp only [if_true, pixels_spritesFrom mem p.oam _ _ _ x hx, hzero, Bool.true_and]
    cases (p.oam.entry 0).covers p.beam.scanline.val p.control.spriteHeight <;> rfl

/-! ### Where the first entry meets the background -/

theorem pixel_fetchedFrom (mem : UInt16 → UInt8) (p : Ppu) (h : p.beam.dot.val < 256)
    (fineX : Fin 8) : (fetchedFrom mem p).background.pixel fineX = p.background.pixel fineX := by
  have hp : (fetchedFrom mem p).background = (fetchStageFrom mem p).background :=
    congrArg Prod.snd (p.pipeline_fetchedFrom mem)
  have h321 : p.beam.dot ≠ 321 := by
    intro he
    rw [he] at h
    exact absurd h (by decide)
  rw [hp]
  unfold fetchStageFrom fetchFrom
  -- Before column 256 a fetch puts its tile behind the eight pixels that can show.
  split
  · split
    · exact BackgroundQueue.pixel_loadNext _ _ _
    · split
      · rfl
      · rfl
  · rfl

def meets (p : Ppu) (color : Fin 4) (x : Nat) : Bool :=
  p.mask.showsSpritesAt x && color != 0 && p.mask.showsBackgroundAt x &&
    (p.background.pixel p.fineX).color != 0 && x != 255

theorem hitsSpriteZero_fetchedFrom (mem mem' : UInt16 → UInt8) (p s : Ppu)
    (hd : p.beam.dot.val < 256) (h : s.ShowsFirst mem' (spritesStageFrom mem p).sprites) :
    (fetchedFrom mem p).hitsSpriteZero p.beam.dot.val =
      p.meets (s.zeroColor mem' p.beam.dot.val) p.beam.dot.val := by
  have hs := p.setting_fetchedFrom mem
  have hfine : (fetchedFrom mem p).fineX = p.fineX := congrArg Setting.fineX hs
  have hfirst := h _ hd
  unfold hitsSpriteZero spriteAt backgroundAt meets
  rw [mask_of_setting hs, hfine, pixel_fetchedFrom mem p hd, sprites_fetchedFrom,
    Vector.getElem?_eq_getElem hd, Option.getD_some]
  cases p.mask.showsSpritesAt p.beam.dot.val with
  | false => simp
  | true =>
    simp only [if_true, hfirst, Bool.true_and]
    cases p.mask.showsBackgroundAt p.beam.dot.val <;> simp

/-! ### Histories -/

def Ends {ε σ α : Type} (x : EStateM ε σ α) (s s' : σ) : Prop :=
  (∃ a, x s = .ok a s') ∨ ∃ e, x s = .error e s'

/-- What may be done to a picture unit. Besides its dots and what the processor does to it, the
memory behind its bus may become another. -/
inductive Act (β : Type) where
  | dot
  | read (address : UInt16)
  | write (address : UInt16) (data : UInt8)
  | objects (block : ObjectMemory)
  | reset
  | rewire (bus : β)

structure Deed (β : Type) where
  act : Act β
  before : Wired Ppu β

namespace Act
variable {β : Type}

def isDot : Act β → Bool
  | .dot => true
  | _ => false

def isReset : Act β → Bool
  | .reset => true
  | _ => false

def readsStatus : Act β → Bool
  | .read address => address.toNat % 8 == 2
  | _ => false

variable [Bus β]

/-- Where the act leads. A dot has to succeed; an access may be refused. -/
def Takes : Act β → Wired Ppu β → Wired Ppu β → Prop
  | .dot, w, w' => ∃ t, step w = .ok t w'
  | .read address, w, w' => Ends (readRegister address) w w'
  | .write address data, w, w' => Ends (writeRegister address data) w w'
  | .objects block, w, w' => w' = ⟨w.chip.writeObjects block, w.bus⟩
  | .reset, w, w' => w' = ⟨w.chip.reset, w.bus⟩
  | .rewire bus, w, w' => w' = ⟨w.chip, bus⟩

end Act

section
variable {β : Type} [Bus β]

inductive Ran : List (Deed β) → Wired Ppu β → Prop where
  | powerUp (bus : β) : Ran [] ⟨{}, bus⟩
  | act {past : List (Deed β)} {w w' : Wired Ppu β} (a : Act β) (h : Ran past w)
    (ha : a.Takes w w') : Ran (⟨a, w⟩ :: past) w'

end

section
variable {β : Type}

/-- Something in the past that `raises`, after which nothing `clears`. What raises may depend on the
past before it. -/
def Since (raises : Deed β → List (Deed β) → Prop) (clears : Deed β → Prop)
    (past : List (Deed β)) : Prop :=
  ∃ recent d older, past = recent ++ d :: older ∧ raises d older ∧ ∀ e ∈ recent, ¬clears e

theorem since_cons {raises : Deed β → List (Deed β) → Prop} {clears : Deed β → Prop} {d : Deed β}
    {past : List (Deed β)} :
    Since raises clears (d :: past) ↔ raises d past ∨ (¬clears d ∧ Since raises clears past) := by
  constructor
  · rintro ⟨recent, e, older, hpast, hraises, hquiet⟩
    cases recent with
    | nil =>
      cases hpast
      exact .inl hraises
    | cons d' recent =>
      obtain ⟨rfl, rfl⟩ := List.cons.inj hpast
      exact .inr ⟨hquiet d List.mem_cons_self,
        recent, e, older, rfl, hraises, fun e' he => hquiet e' (List.mem_cons_of_mem _ he)⟩
  · rintro (hraises | ⟨hd, recent, e, older, rfl, hraises, hquiet⟩)
    · exact ⟨[], d, past, rfl, hraises, fun e he => absurd he List.not_mem_nil⟩
    · refine ⟨d :: recent, e, older, rfl, hraises, fun e' he => ?_⟩
      rcases List.mem_cons.1 he with rfl | he
      · exact hd
      · exact hquiet e' he

def StartsBlank (d : Deed β) (_ : List (Deed β)) : Prop :=
  d.act.isDot = true ∧ d.before.chip.beam = .vblankStart

def EndsFrame (d : Deed β) : Prop :=
  d.act.isReset = true ∨ (d.act.isDot = true ∧ d.before.chip.beam = .flagsEnd)

def EndsBlank (d : Deed β) : Prop := EndsFrame d ∨ d.act.readsStatus = true

/-- The first dot of a line of the picture that nine or more entries cover, while something is
drawn. -/
def Crowds (d : Deed β) (_ : List (Deed β)) : Prop :=
  let p := d.before.chip
  d.act.isDot = true ∧ p.beam.scanline.val < 240 ∧ p.beam.dot = 0 ∧ p.mask.rendering = true ∧
    9 ≤ (SpriteLine.covering p.oam p.beam.scanline.val p.control.spriteHeight).length

def lineStart? (line : Fin 262) (past : List (Deed β)) : Option (Wired Ppu β) :=
  (past.find? fun d => d.act.isDot && d.before.chip.beam == ⟨line, 0⟩).map (·.before)

variable [Bus β] [MemoryBus β]

/-- A dot of the picture, short of the last column, where the first entry of object memory, as it
stood at the first dot of the line, and the background are both opaque and both shown. -/
def Hits (d : Deed β) (older : List (Deed β)) : Prop :=
  let p := d.before.chip
  let x := p.beam.dot.val
  d.act.isDot = true ∧ p.beam.scanline.val < 240 ∧ x ≤ 254 ∧
    (∃ s, lineStart? p.beam.scanline (d :: older) = some s ∧
      s.chip.zeroColor (byteAt s.bus) x ≠ 0) ∧
    (p.background.pixel p.fineX).color ≠ 0 ∧
    p.mask.showsBackgroundAt x = true ∧ p.mask.showsSpritesAt x = true

structure Recorded (past : List (Deed β)) (w : Wired Ppu β) : Prop where
  vblank : w.chip.status.vblank = true ↔ Since StartsBlank EndsBlank past
  overflow : w.chip.status.spriteOverflow = true ↔ Since Crowds EndsFrame past
  hit : w.chip.status.spriteZeroHit = true ↔ Since Hits EndsFrame past
  sprites : w.chip.beam.scanline.val < 240 → 1 ≤ w.chip.beam.dot.val →
    ∃ s, lineStart? w.chip.beam.scanline past = some s ∧
      s.chip.ShowsFirst (byteAt s.bus) w.chip.sprites

theorem Recorded.powerUp (bus : β) : Recorded [] ⟨{}, bus⟩ := by
  have hnone {raises : Deed β → List (Deed β) → Prop} {clears : Deed β → Prop} :
      false = true ↔ Since raises clears [] := by
    refine ⟨nofun, ?_⟩
    rintro ⟨recent, d, older, hpast, -⟩
    simp at hpast
  have hline : ¬Beam.preRenderLine.val < 240 := by decide
  exact ⟨hnone, hnone, hnone, fun hl => absurd hl hline⟩

section
variable {past : List (Deed β)} {w w' : Wired Ppu β} {a : Act β}

omit [Bus β] [MemoryBus β] in
theorem lineStart?_cons (hdot : a.isDot = false) (line : Fin 262) :
    lineStart? line (⟨a, w⟩ :: past) = lineStart? line past := by
  simp [lineStart?, hdot]

/-- An act that is no dot raises nothing. -/
theorem since_cons_act (past : List (Deed β)) (w : Wired Ppu β) (hdot : a.isDot = false) :
    (Since StartsBlank EndsBlank (⟨a, w⟩ :: past) ↔
      ¬EndsBlank ⟨a, w⟩ ∧ Since StartsBlank EndsBlank past) ∧
    (Since Crowds EndsFrame (⟨a, w⟩ :: past) ↔
      ¬EndsFrame ⟨a, w⟩ ∧ Since Crowds EndsFrame past) ∧
    (Since Hits EndsFrame (⟨a, w⟩ :: past) ↔
      ¬EndsFrame ⟨a, w⟩ ∧ Since Hits EndsFrame past) := by
  have hno {p : Prop} : ¬(a.isDot = true ∧ p) := by simp [hdot]
  exact ⟨since_cons.trans (or_iff_right hno), since_cons.trans (or_iff_right hno),
    since_cons.trans (or_iff_right hno)⟩

/-- An act between two dots that is no reset. -/
theorem Recorded.between (h : Recorded past w) (hdot : a.isDot = false) (hreset : a.isReset = false)
    (hbeam : w'.chip.beam = w.chip.beam) (hsprites : w'.chip.sprites = w.chip.sprites)
    (hstatus : w'.chip.status =
      { w.chip.status with vblank := w.chip.status.vblank && !a.readsStatus }) :
    Recorded (⟨a, w⟩ :: past) w' := by
  have hframe : ¬EndsFrame ⟨a, w⟩ := by simp [EndsFrame, hdot, hreset]
  have hblank : EndsBlank ⟨a, w⟩ ↔ a.readsStatus = true := or_iff_right hframe
  obtain ⟨hstarts, hcrowds, hhits⟩ := since_cons_act past w hdot
  refine ⟨?_, ?_, ?_, ?_⟩
  · rw [hstarts, hblank, ← h.vblank, hstatus]
    cases w.chip.status.vblank <;> cases a.readsStatus <;> simp
  · rw [hcrowds, and_iff_right hframe, ← h.overflow, hstatus]
  · rw [hhits, and_iff_right hframe, ← h.hit, hstatus]
  · rw [hbeam, hsprites, lineStart?_cons hdot]
    exact h.sprites

theorem Recorded.reset (w : Wired Ppu β) :
    Recorded (⟨.reset, w⟩ :: past) ⟨w.chip.reset, w.bus⟩ := by
  have hframe : EndsFrame (⟨.reset, w⟩ : Deed β) := .inl rfl
  obtain ⟨hstarts, hcrowds, hhits⟩ := since_cons_act (a := .reset) past w rfl
  have hline : ¬Beam.preRenderLine.val < 240 := by decide
  refine ⟨?_, ?_, ?_, fun hl => absurd hl hline⟩
  · exact ⟨nofun, fun hs => absurd (.inl hframe) (hstarts.1 hs).1⟩
  · exact ⟨nofun, fun hs => absurd hframe (hcrowds.1 hs).1⟩
  · exact ⟨nofun, fun hs => absurd hframe (hhits.1 hs).1⟩

/-- A dot takes the sprites of its line where the line begins, and has them from there on. -/
theorem Recorded.lineStart (h : Recorded past w) (hl : w.chip.beam.scanline.val < 240) :
    ∃ s, lineStart? w.chip.beam.scanline (⟨.dot, w⟩ :: past) = some s ∧
      s.chip.ShowsFirst (byteAt s.bus) (spritesStageFrom (byteAt w.bus) w.chip).sprites := by
  have hvisible : w.chip.beam.onVisibleLine = true := decide_eq_true hl
  rw [sprites_spritesStageFrom, hvisible, Bool.true_and]
  by_cases hd : w.chip.beam.dot = 0
  · have hhead : (w.chip.beam == ⟨w.chip.beam.scanline, 0⟩) = true := by
      rw [← hd]
      exact beq_self_eq_true _
    refine ⟨w, ?_, ?_⟩
    · simp [lineStart?, Act.isDot, hhead]
    · rw [hd, beq_self_eq_true, if_pos rfl]
      exact w.chip.showsFirst_lineSprites _
  · have hhead : (w.chip.beam == ⟨w.chip.beam.scanline, 0⟩) = false := by
      refine beq_false_of_ne fun he => hd ?_
      exact congrArg Beam.dot he
    have hdot : 1 ≤ w.chip.beam.dot.val := Nat.one_le_iff_ne_zero.2 fun he => hd (Fin.ext he)
    obtain ⟨s, hs, hshows⟩ := h.sprites hl hdot
    refine ⟨s, ?_, ?_⟩
    · simpa [lineStart?, hhead] using hs
    · rw [beq_false_of_ne hd]
      exact hshows

theorem isSome_pixel? (b : Beam) :
    b.pixel?.isSome = true ↔ b.scanline.val < 240 ∧ b.dot.val < 256 := by
  unfold Beam.pixel?
  split <;> simp [*]

/-- A dot sets the flag of the first entry where it hits. -/
theorem Recorded.hits_iff (h : Recorded past w) : Hits ⟨.dot, w⟩ past ↔
    (w.chip.beam.pixel?.isSome && w.chip.mask.rendering &&
      (fetchedFrom (byteAt w.bus) w.chip).hitsSpriteZero w.chip.beam.dot.val) = true := by
  simp only [Bool.and_eq_true, isSome_pixel?, Hits]
  constructor
  · rintro ⟨-, hl, hx, ⟨s, hs, hzero⟩, hbackground, hshowsB, hshowsS⟩
    -- The start of the line that the past has is the one whose sprites the unit holds.
    obtain ⟨s', hs', hfirst⟩ := h.lineStart hl
    obtain rfl : s = s' := Option.some.inj (hs.symm.trans hs')
    have hd : w.chip.beam.dot.val < 256 := by omega
    have hne : w.chip.beam.dot.val ≠ 255 := by omega
    refine ⟨⟨⟨hl, hd⟩, ?_⟩, ?_⟩
    -- A layer that is shown is enough for something to be drawn.
    · simp only [Mask.showsSpritesAt, Bool.and_eq_true] at hshowsS
      rw [Mask.rendering, hshowsS.1, Bool.or_true]
    · rw [hitsSpriteZero_fetchedFrom _ _ _ _ hd hfirst]
      simp [meets, hzero, hbackground, hshowsB, hshowsS, hne]
  · rintro ⟨⟨⟨hl, hd⟩, -⟩, hhit⟩
    obtain ⟨s, hs, hfirst⟩ := h.lineStart hl
    rw [hitsSpriteZero_fetchedFrom _ _ _ _ hd hfirst] at hhit
    simp only [meets, Bool.and_eq_true, bne_iff_ne, ne_eq] at hhit
    obtain ⟨⟨⟨⟨hshowsS, hzero⟩, hshowsB⟩, hbackground⟩, hne⟩ := hhit
    exact ⟨rfl, hl, by omega, ⟨s, hs, hzero⟩, hbackground, hshowsB, hshowsS⟩

theorem Recorded.dot (h : Recorded past w) {t : Tick} (hs : step w = .ok t w') :
    Recorded (⟨.dot, w⟩ :: past) w' := by
  have hchip := chip_of_step hs
  have hstatus := w.chip.status_stepFrom (byteAt w.bus)
  have hframe : EndsFrame (⟨.dot, w⟩ : Deed β) ↔ w.chip.beam = .flagsEnd := by
    simp [EndsFrame, Act.isReset, Act.isDot]
  have hblank : EndsBlank (⟨.dot, w⟩ : Deed β) ↔ w.chip.beam = .flagsEnd := by
    simp [EndsBlank, hframe, Act.readsStatus]
  refine ⟨?_, ?_, ?_, fun hl hd => ?_⟩
  · rw [hchip, hstatus, since_cons, hblank, ← h.vblank]
    simp [StartsBlank, Act.isDot, and_comm]
  · have hcrowds : Crowds ⟨.dot, w⟩ past ↔ w.chip.crowded = true := by
      simp [Crowds, crowded, Act.isDot, Beam.onVisibleLine, Nat.succ_le_iff, and_assoc]
    rw [hchip, hstatus, since_cons, hframe, ← h.overflow, hcrowds]
    simp [or_comm, and_comm]
  · rw [hchip, hstatus, since_cons, hframe, ← h.hit, h.hits_iff]
    simp [or_comm, and_comm]
  · rw [hchip] at hl hd ⊢
    rcases w.chip.beam_move (byteAt w.bus) with ⟨hline, -⟩ | ⟨-, -, hfirst⟩
    · rw [hline] at hl ⊢
      rw [sprites_stepFrom, sprites_fetchedFrom]
      exact h.lineStart hl
    -- On a new line the beam is at its first dot, where nothing is claimed.
    · omega

end

/-- The accesses of the processor show in the status by the end of the blank alone. -/
theorem Recorded.access {past : List (Deed β)} {w w' : Wired Ppu β} {a : Act β} {α : Type}
    {x : EStateM BusError (Wired Ppu β) α} (h : Recorded past w) (hdot : a.isDot = false)
    (hreset : a.isReset = false) (hstatus : a.readsStatus = false)
    (hx : KeepsView (fun p => (p.beam, p.sprites, p.status)) x) (ha : Ends x w w') :
    Recorded (⟨a, w⟩ :: past) w' := by
  have hview : (w'.chip.beam, w'.chip.sprites, w'.chip.status) =
      (w.chip.beam, w.chip.sprites, w.chip.status) := by
    have hw := hx _ w rfl
    rcases ha with ⟨_, hok⟩ | ⟨_, herror⟩
    · rw [hok] at hw
      exact hw
    · rw [herror] at hw
      exact hw
  simp only [Prod.mk.injEq] at hview
  obtain ⟨hbeam, hsprites, hsame⟩ := hview
  exact h.between hdot hreset hbeam hsprites (by rw [hsame, hstatus]; simp)

omit [MemoryBus β] in
theorem keepsView_readRegister {τ : Type} {f : Ppu → τ} {address : UInt16}
    (hstatus : address.toNat % 8 = 2 → ∀ p, f (statusRead p) = f p)
    (hbuffer : ∀ p byte, f { p with readBuffer := byte } = f p)
    (haddress : ∀ p v, f { p with v := v } = f p) :
    KeepsView f (readRegister address : EStateM BusError (Wired Ppu β) UInt8) := by
  unfold readRegister
  split
  · exact .bind (.look _) fun _ => .bind (.update (hstatus ‹_›)) fun _ => .pure _
  · exact .look _
  · exact keepsView_readData hbuffer haddress
  · exact .look _

omit [MemoryBus β] in
theorem keepsView_writeRegister (address : UInt16) (data : UInt8) :
    KeepsView (fun p => (p.beam, p.sprites, p.picture, p.status))
      (writeRegister address data : EStateM BusError (Wired Ppu β) Unit) := by
  refine .bind (.update fun _ => rfl) fun _ => ?_
  generalize address.toNat % 8 = register
  match register with
  | 0 | 1 | 3 | 4 => exact .update fun _ => rfl
  | 2 => exact .pure _
  | 5 =>
    refine .update fun p => ?_
    simp only [writeScroll]
    split <;> rfl
  | 6 =>
    refine .update fun p => ?_
    simp only [writeAddress]
    split <;> rfl
  | n + 7 =>
    exact .bind (.look _) fun _ => .bind (.write _ _) fun _ => .update fun _ => rfl

theorem Recorded.take {past : List (Deed β)} {w w' : Wired Ppu β} {a : Act β}
    (h : Recorded past w) (ha : a.Takes w w') : Recorded (⟨a, w⟩ :: past) w' := by
  cases a with
  | dot =>
    obtain ⟨t, hs⟩ := ha
    exact h.dot hs
  | read address =>
    by_cases hr : address.toNat % 8 = 2
    · have hread : readRegister address w = .ok w.chip.statusByte ⟨w.chip.statusRead, w.bus⟩ := by
        unfold readRegister
        rw [hr]
        rfl
      obtain rfl : w' = ⟨w.chip.statusRead, w.bus⟩ := by
        rcases ha with ⟨_, hok⟩ | ⟨_, herror⟩
        · cases hread.symm.trans hok
          rfl
        · cases hread.symm.trans herror
      refine h.between rfl rfl rfl rfl ?_
      simp [statusRead, Act.readsStatus, hr]
    · have hkeeps : KeepsView (fun p => (p.beam, p.sprites, p.status))
          (readRegister address : EStateM BusError (Wired Ppu β) UInt8) :=
        keepsView_readRegister (fun h => absurd h hr) (fun _ _ => rfl) fun _ _ => rfl
      exact h.access rfl rfl (beq_false_of_ne hr) hkeeps ha
  | write address data =>
    have hkeeps := (keepsView_writeRegister (β := β) address data).map
      fun v => (v.1, v.2.1, v.2.2.2)
    exact h.access rfl rfl rfl hkeeps ha
  | objects block =>
    cases ha
    refine h.between rfl rfl ?_ ?_ ?_
    · simp only [writeObjects]
    · simp only [writeObjects]
    · simp [writeObjects, Act.readsStatus]
  | reset =>
    cases ha
    exact .reset w
  | rewire bus =>
    cases ha
    exact h.between rfl rfl rfl rfl (by simp [Act.readsStatus])

theorem Ran.recorded {past : List (Deed β)} {w : Wired Ppu β} (h : Ran past w) :
    Recorded past w := by
  induction h with
  | powerUp bus => exact .powerUp bus
  | act a _ ha ih => exact ih.take ha

end
end Ppu

theorem PictureStatus.bits (s : PictureStatus) : hasBit s.toByte 7 = s.vblank ∧
    hasBit s.toByte 6 = s.spriteZeroHit ∧ hasBit s.toByte 5 = s.spriteOverflow ∧
    s.toByte % 32 = 0 := by
  obtain ⟨overflow, hit, vblank⟩ := s
  cases overflow <;> cases hit <;> cases vblank <;> decide

namespace Ppu
section
variable {β : Type} [Bus β] [MemoryBus β]

/-- The status is exactly its history: the blank has begun since the latest reset, status read and
end of the flags; a line was crowded, or the first entry met the background, since the latest reset
and end of the flags. The first such meeting sets its flag, and nothing else does. -/
theorem status_is_history {past : List (Deed β)} {w : Wired Ppu β} (h : Ran past w) :
    (hasBit w.chip.status.toByte 7 = true ↔ Since StartsBlank EndsBlank past) ∧
    (hasBit w.chip.status.toByte 5 = true ↔ Since Crowds EndsFrame past) ∧
    (hasBit w.chip.status.toByte 6 = true ↔ Since Hits EndsFrame past) ∧
    w.chip.status.toByte % 32 = 0 ∧
    ∀ a w', a.Takes w w' → hasBit w.chip.status.toByte 6 = false →
      (hasBit w'.chip.status.toByte 6 = true ↔ Hits ⟨a, w⟩ past) := by
  have hw := h.recorded
  obtain ⟨hblank, hhit, hoverflow, hlow⟩ := w.chip.status.bits
  refine ⟨?_, ?_, ?_, hlow, fun a w' ha hclear => ?_⟩
  · rw [hblank, hw.vblank]
  · rw [hoverflow, hw.overflow]
  · rw [hhit, hw.hit]
  · have hnone : ¬Since Hits EndsFrame past := by
      rw [← hw.hit, ← hhit, hclear]
      nofun
    rw [w'.chip.status.bits.2.1, (hw.take ha).hit, since_cons, or_iff_left fun hs => hnone hs.2]

end

/-! A frame with a crowded line. At power-up all entries of object memory cover lines 1 to 8. -/

section
variable {past : List (Deed (FlatMemory 0x4000))} {w : Wired Ppu (FlatMemory 0x4000)}

structure Idles (past : List (Deed (FlatMemory 0x4000))) (w : Wired Ppu (FlatMemory 0x4000)) :
    Prop where
  ran : Ran past w
  control : w.chip.control = {}
  mask : w.chip.mask = {}
  oam : w.chip.oam = Vector.replicate 256 0
  bus : w.bus.holes = [] ∧ w.bus.cells = FlatMemory.blank.cells

theorem Idles.powerUp : Idles [] ⟨{}, .blank⟩ := ⟨.powerUp _, rfl, rfl, rfl, rfl, rfl⟩

theorem Idles.leavesNothingOut (h : Idles past w) : (w.chip.oddFrame && w.chip.mask.rendering &&
    w.chip.beam == ⟨Beam.preRenderLine, 339⟩) = false := by
  have hoff : w.chip.mask.rendering = false := congrArg Mask.rendering h.mask
  rw [hoff, Bool.and_false, Bool.false_and]

/-- A dot that leaves nothing out. -/
theorem Ran.dot (h : Ran past w)
    (hbus : w.bus.holes = [] ∧ w.bus.cells = FlatMemory.blank.cells)
    (hodd : (w.chip.oddFrame && w.chip.mask.rendering &&
      w.chip.beam == ⟨Beam.preRenderLine, 339⟩) = false) : ∃ w',
    Ran (⟨.dot, w⟩ :: past) w' ∧ w'.chip.beam = w.chip.beam.next ∧
      w'.chip.control = w.chip.control ∧ w'.chip.mask = w.chip.mask ∧
      w'.chip.oam = w.chip.oam ∧
      w'.bus.holes = [] ∧ w'.bus.cells = FlatMemory.blank.cells := by
  obtain ⟨b, hstep, hb⟩ := does_step (FlatMemory.steady .blank) w.chip w.bus hbus
  have hsetting := setting_stepFrom
    (fun address => (.blank : FlatMemory 0x4000).get address.toNat) w.chip
  refine ⟨_, h.act .dot ⟨_, hstep⟩, ?_, congrArg Setting.control hsetting,
    congrArg Setting.mask hsetting, congrArg Setting.oam hsetting, hb⟩
  rw [beam_stepFrom, hodd, if_neg Bool.false_ne_true]

theorem Ran.writeMask (h : Ran past w) (data : UInt8) : Ran (⟨.write 0x2001 data, w⟩ :: past)
    ⟨{ w.chip with latch := data, mask := ⟨data⟩ }, w.bus⟩ := by
  have hregister : (0x2001 : UInt16).toNat % 8 = 1 := by decide
  refine h.act _ (.inl ⟨(), ?_⟩)
  unfold writeRegister
  rw [hregister]
  rfl

/-- A crowded line stays on record until the dot that clears the flags. -/
theorem Idles.dots (h : Idles past w) (n : Nat) : ∃ past' w', Idles past' w' ∧
    w'.chip.beam.index = (w.chip.beam.index + n) % 89342 ∧
    ((∀ k < n, (w.chip.beam.index + k) % 89342 ≠ Beam.flagsEnd.index) →
      Since Crowds EndsFrame past → Since Crowds EndsFrame past') := by
  induction n with
  | zero =>
    refine ⟨past, w, h, ?_, fun _ hs => hs⟩
    rw [Nat.add_zero, Nat.mod_eq_of_lt w.chip.beam.index_lt]
  | succ n ih =>
    obtain ⟨past', v, hv, hindex, hsince⟩ := ih
    obtain ⟨v', hran, hbeam, hcontrol, hmask, hoam, hbus⟩ :=
      hv.ran.dot hv.bus hv.leavesNothingOut
    refine ⟨_, v', ⟨hran, hcontrol.trans hv.control, hmask.trans hv.mask, hoam.trans hv.oam, hbus⟩,
      ?_, fun hstay hs => since_cons.2 (.inr ⟨?_, hsince ?_ hs⟩)⟩
    · rw [hbeam, Beam.index_next, hindex]
      omega
    · rintro (hreset | ⟨-, hend⟩)
      · cases hreset
      · exact hstay n (Nat.lt_succ_self n) (hindex.symm.trans (congrArg Beam.index hend))
    · exact fun k hk => hstay k (Nat.lt_succ_of_lt hk)

/-- Both layers on for the first dot of line 1. -/
theorem Idles.crowd (h : Idles past w) (hbeam : w.chip.beam = ⟨1, 0⟩) : ∃ past' w',
    Idles past' w' ∧ w'.chip.beam = ⟨1, 1⟩ ∧ Since Crowds EndsFrame past' := by
  have hon := h.ran.writeMask 0x18
  have hat : ((w.chip.oddFrame && (Mask.mk 0x18).rendering) &&
      w.chip.beam == ⟨Beam.preRenderLine, 339⟩) = false := by
    rw [hbeam]
    exact Bool.and_false _
  obtain ⟨v, hran, hnext, hcontrol, -, hoam, hbus⟩ := hon.dot h.bus hat
  have hcrowds : Crowds (⟨.dot, ⟨{ w.chip with latch := 0x18, mask := ⟨0x18⟩ }, w.bus⟩⟩ :
      Deed (FlatMemory 0x4000)) (⟨.write 0x2001 0x18, w⟩ :: past) := by
    have hrendering : (Mask.mk 0x18).rendering = true := by decide
    refine ⟨rfl, ?_, congrArg Beam.dot hbeam, hrendering, ?_⟩
    · change w.chip.beam.scanline.val < 240
      rw [hbeam]
      decide
    · change 9 ≤ (SpriteLine.covering w.chip.oam w.chip.beam.scanline.val
        w.chip.control.spriteHeight).length
      rw [h.oam, h.control, hbeam]
      decide +kernel
  refine ⟨_, _, ⟨hran.writeMask 0, hcontrol.trans h.control, rfl, hoam.trans h.oam, hbus⟩, ?_, ?_⟩
  · exact hnext.trans (congrArg Beam.next hbeam)
  · exact since_cons.2 (.inr ⟨by simp [EndsFrame, Act.isDot, Act.isReset],
      since_cons.2 (.inl hcrowds)⟩)

/-- When the blank has begun both its flag and that of the crowded line stand. -/
theorem status_is_history_crowded : ∃ (past : List (Deed (FlatMemory 0x4000)))
    (w : Wired Ppu (FlatMemory 0x4000)), Ran past w ∧
      hasBit w.chip.status.toByte 7 = true ∧ Since StartsBlank EndsBlank past ∧
      hasBit w.chip.status.toByte 5 = true ∧ Since Crowds EndsFrame past := by
  obtain ⟨_, w₁, h₁, hindex₁, -⟩ := Idles.powerUp.dots 682
  have hline : w₁.chip.beam = ⟨1, 0⟩ := Beam.index_inj.1 hindex₁
  obtain ⟨_, w₂, h₂, hbeam₂, hcrowded₂⟩ := h₁.crowd hline
  obtain ⟨past, w₃, h₃, hindex₃, hstay⟩ := h₂.dots 81840
  rw [hbeam₂] at hindex₃ hstay
  have hcrowded₃ := hstay (fun k hk => by
    have hfirst : (⟨1, 1⟩ : Beam).index = 342 := rfl
    have hend : Beam.flagsEnd.index = 89002 := rfl
    omega) hcrowded₂
  have hstart : w₃.chip.beam = .vblankStart := Beam.index_inj.1 hindex₃
  obtain ⟨w, hran, -⟩ := h₃.ran.dot h₃.bus h₃.leavesNothingOut
  have hblank : Since StartsBlank EndsBlank (⟨.dot, w₃⟩ :: past) :=
    since_cons.2 (.inl ⟨rfl, hstart⟩)
  have hcrowded : Since Crowds EndsFrame (⟨.dot, w₃⟩ :: past) := by
    refine since_cons.2 (.inr ⟨?_, hcrowded₃⟩)
    rintro (hreset | ⟨-, hend⟩)
    · cases hreset
    · cases hstart.symm.trans hend
  have hstatus := status_is_history hran
  exact ⟨_, w, hran, hstatus.1.2 hblank, hblank, hstatus.2.1.2 hcrowded, hcrowded⟩

end
end Ppu
end NesConsole
