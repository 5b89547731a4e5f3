import NesConsole.Proofs.Picture.OverMemory

/-! The picture unit with its arithmetic checked: every sum and difference that is computed in a
fixed width, and every index that could miss, is refused when it leaves its range. No check ever
refuses, so the checked unit is the unit itself. An index into a memory of fixed size has a finite
type and needs no check; what the cartridge lacks is refused by its own bus. -/
namespace NesConsole
section
variable {σ α κ β : Type}

/-- A number that has to stay below `limit`. -/
def within (limit n : Nat) : EStateM BusError σ Nat :=
  if n < limit then pure n else throw .overflow

/-- A difference that has to stay a natural number. -/
def less (a b : Nat) : EStateM BusError σ Nat := if b ≤ a then pure (a - b) else throw .overflow

theorem within_of_lt {limit n : Nat} (h : n < limit) :
    (within limit n : EStateM BusError σ Nat) = pure n := if_pos h

theorem less_of_le {a b : Nat} (h : b ≤ a) : (less a b : EStateM BusError σ Nat) = pure (a - b) :=
  if_pos h

theorem Wired.look_bind_congr {ε : Type} {f : κ → α} {δ : Type}
    {g k : α → EStateM ε (Wired κ β) δ} (h : ∀ c, g (f c) = k (f c)) :
    (Wired.look f >>= g) = (Wired.look f >>= k) := by
  funext w
  exact congrFun (h w.chip) w

theorem forM_congr_of_mem {ι : Type} {ε : Type} {l : List ι} {f g : ι → EStateM ε σ PUnit}
    (h : ∀ i ∈ l, f i = g i) : l.forM f = l.forM g := by
  induction l with
  | nil => rfl
  | cons i l ih =>
    change (f i >>= fun _ => l.forM f) = (g i >>= fun _ => l.forM g)
    rw [h i List.mem_cons_self, ih fun j hj => h j (List.mem_cons_of_mem _ hj)]

end

/-! ### Sprites -/

namespace SpriteEntry
variable {σ : Type}

def checkedRow (e : SpriteEntry) (scanline height : Nat) : EStateM BusError σ Nat := do
  let line ← less scanline 1
  let fromTop ← less line e.y.toNat
  if e.flipsDown then
    let last ← less height 1
    less last fromTop
  else return fromTop

def checkedAddress (e : SpriteEntry) (scanline height : Nat) (table : UInt16) :
    EStateM BusError σ Nat := do
  let row ← e.checkedRow scanline height
  if height = 16 then
    let bank := e.tile.toNat % 2 * 0x1000
    let top := e.tile.toNat / 2 * 2
    if row < 8 then within 0x10000 (bank + top * 16 + row)
    else
      let below ← within 0x100 (top + 1)
      let row ← less row 8
      within 0x10000 (bank + below * 16 + row)
  else within 0x10000 (table.toNat + e.tile.toNat * 16 + row)

theorem checkedAddress_eq {e : SpriteEntry} {scanline : Nat} (c : Control)
    (h : e.covers scanline c.spriteHeight = true) :
    (e.checkedAddress scanline c.spriteHeight c.spriteTable : EStateM BusError σ Nat) =
      pure (e.patternAddress scanline c.spriteHeight c.spriteTable) := by
  have hlt := Ppu.patternAddress_lt c h
  have htile := e.tile.toNat_lt
  simp only [covers, Bool.and_eq_true, decide_eq_true_eq] at h
  have hheight : 1 ≤ c.spriteHeight ∧ c.spriteHeight ≤ 16 := by
    unfold Control.spriteHeight
    split <;> decide
  have hrow : (e.checkedRow scanline c.spriteHeight : EStateM BusError σ Nat) =
      pure (if e.flipsDown then c.spriteHeight - 1 - (scanline - 1 - e.y.toNat)
        else scanline - 1 - e.y.toNat) := by
    unfold checkedRow
    rw [less_of_le (show 1 ≤ scanline by omega), pure_bind,
      less_of_le (show e.y.toNat ≤ scanline - 1 by omega), pure_bind]
    split
    · rw [less_of_le hheight.1, pure_bind, less_of_le (by omega)]
    · rfl
  unfold checkedAddress
  rw [hrow, pure_bind]
  unfold patternAddress at hlt ⊢
  dsimp only at hlt ⊢
  have hbound : (if e.flipsDown then c.spriteHeight - 1 - (scanline - 1 - e.y.toNat)
      else scanline - 1 - e.y.toNat) < 16 := by
    split <;> omega
  generalize (if e.flipsDown then c.spriteHeight - 1 - (scanline - 1 - e.y.toNat)
    else scanline - 1 - e.y.toNat) = row at hlt hbound ⊢
  by_cases h16 : c.spriteHeight = 16
  · rw [if_pos h16, if_pos h16]
    by_cases hupper : row < 8
    · have haddress : e.tile.toNat % 2 * 0x1000 + e.tile.toNat / 2 * 2 * 16 + row =
          e.tile.toNat % 2 * 0x1000 + (e.tile.toNat / 2 * 2 + row / 8) * 16 + row % 8 := by omega
      rw [if_pos hupper, within_of_lt (by omega), haddress]
    · have haddress : e.tile.toNat % 2 * 0x1000 + (e.tile.toNat / 2 * 2 + 1) * 16 + (row - 8) =
          e.tile.toNat % 2 * 0x1000 + (e.tile.toNat / 2 * 2 + row / 8) * 16 + row % 8 := by omega
      rw [if_neg hupper, within_of_lt (by omega), pure_bind, less_of_le (by omega), pure_bind,
        within_of_lt (by omega), haddress]
  · rw [if_neg h16, if_neg h16]
    rw [if_neg h16] at hlt
    rw [within_of_lt (by omega)]

end SpriteEntry

namespace SpriteLine
section
variable {β : Type}

def checkedPaint (i : Fin 64) (e : SpriteEntry) (row : PatternRow) :
    EStateM BusError (Wired SpriteLine β) Unit :=
  (List.range 8).forM fun column => do
    let column' ← if e.flipsAcross then less 7 column else pure column
    let _ ← less 7 column'
    Wired.update (paintPixel (e.x.toNat + column)
      { color := row.color column'
        palette := e.palette
        behindBackground := e.behindBackground
        spriteZero := i == 0 })

theorem forM_update {κ ε ι : Type} (l : List ι) (f : ι → κ → κ) :
    l.forM (fun i => (Wired.update (f i) : EStateM ε (Wired κ β) Unit)) =
      Wired.update fun c => l.foldl (fun c i => f i c) c := by
  induction l with
  | nil => rfl
  | cons i l ih =>
    change (Wired.update (f i) >>= fun _ => l.forM fun i => Wired.update (f i)) = _
    rw [ih]
    rfl

theorem checkedPaint_eq (i : Fin 64) (e : SpriteEntry) (row : PatternRow) :
    (checkedPaint i e row : EStateM BusError (Wired SpriteLine β) Unit) =
      Wired.update (paint i e row) := by
  rw [checkedPaint, forM_congr_of_mem (g := fun column => Wired.update (paintPixel
    (e.x.toNat + column)
    { color := e.colorAt row column
      palette := e.palette
      behindBackground := e.behindBackground
      spriteZero := i == 0 })), forM_update]
  · rfl
  · intro column hcolumn
    have hlt := List.mem_range.1 hcolumn
    unfold SpriteEntry.colorAt
    cases e.flipsAcross with
    | true =>
      simp only [if_true]
      rw [less_of_le (show column ≤ 7 by omega), pure_bind,
        less_of_le (show 7 - column ≤ 7 by omega), pure_bind]
    | false =>
      simp only [Bool.false_eq_true, if_false]
      rw [pure_bind, less_of_le (show column ≤ 7 by omega), pure_bind]

variable [Bus β]

def checkedDraw (oam : ObjectMemory) (scanline height : Nat) (table : UInt16) (i : Fin 64) :
    EStateM BusError (Wired SpriteLine β) Unit := do
  let entry := oam.entry i
  let address ← entry.checkedAddress scanline height table
  Wired.update fun line => { line with count := line.count + 1 }
  let low ← readPattern address
  let high ← readPattern (address + 8)
  checkedPaint i entry ⟨low, high⟩

def checkedEvaluate (oam : ObjectMemory) (scanline height : Nat) (table : UInt16) :
    EStateM BusError (Wired SpriteLine β) Bool := do
  unless (List.finRange 64).all fun i => (oam.entry i).inReach scanline do
    throw .overflow
  Wired.update fun _ => empty
  let selected := covering oam scanline height
  (selected.take 8).forM (checkedDraw oam scanline height table)
  return decide (8 < selected.length)

theorem checkedDraw_eq {oam : ObjectMemory} {scanline : Nat} (c : Control) {i : Fin 64}
    (h : (oam.entry i).covers scanline c.spriteHeight = true) :
    (checkedDraw oam scanline c.spriteHeight c.spriteTable i :
      EStateM BusError (Wired SpriteLine β) Unit) =
      draw oam scanline c.spriteHeight c.spriteTable i := by
  unfold checkedDraw draw
  simp only [SpriteEntry.checkedAddress_eq c h, pure_bind, checkedPaint_eq]

theorem checkedEvaluate_eq (oam : ObjectMemory) (scanline : Nat) (c : Control) :
    (checkedEvaluate oam scanline c.spriteHeight c.spriteTable :
      EStateM BusError (Wired SpriteLine β) Bool) =
      evaluate oam scanline c.spriteHeight c.spriteTable := by
  have hdraw : ((covering oam scanline c.spriteHeight).take 8).forM
      (checkedDraw (β := β) oam scanline c.spriteHeight c.spriteTable) =
      ((covering oam scanline c.spriteHeight).take 8).forM
        (draw oam scanline c.spriteHeight c.spriteTable) :=
    forM_congr_of_mem fun i hi =>
      checkedDraw_eq c (List.mem_filter.1 (List.mem_of_mem_take hi)).2
  unfold checkedEvaluate evaluate
  dsimp only
  rw [hdraw]

end
end SpriteLine

/-! ### The background -/

namespace ScrollAddress
variable {σ : Type}

def checkedColumn (s : ScrollAddress) : EStateM BusError σ ScrollAddress := do
  if s.coarseX = 31 then return s.nextColumn
  else return .ofNat (← within 0x10000 (s.toNat + 1))

def checkedRow (s : ScrollAddress) : EStateM BusError σ ScrollAddress := do
  if s.fineY ≠ 7 then return .ofNat (← within 0x10000 (s.toNat + 0x1000))
  else if s.coarseY = 29 ∨ s.coarseY = 31 then return s.nextRow
  else
    let coarse ← within 0x10000 (s.coarseY.val + 1)
    return { s with fineY := 0, coarseY := Fin.ofNat 32 coarse }

theorem ofNat_toNat_add_one {s : ScrollAddress} (h : s.coarseX ≠ 31) :
    ofNat (s.toNat + 1) = s.nextColumn := by
  have hx : s.coarseX.val ≠ 31 := fun he => h (Fin.ext he)
  have hone : (1 : Fin 32).val = 1 := rfl
  rcases s with ⟨a, b, c, d, e⟩
  have ha := a.isLt; have hb := b.isLt; have hc := c.isLt; have hd := d.isLt; have he := e.isLt
  dsimp only at hx h
  simp only [nextColumn, h, if_false, ofNat, toNat, mk.injEq, Fin.ext_iff, Fin.val_add, hone]
  omega

theorem ofNat_toNat_add_row {s : ScrollAddress} (h : s.fineY ≠ 7) :
    ofNat (s.toNat + 0x1000) = s.nextRow := by
  have h7 : s.fineY.val ≠ 7 := fun he => h (Fin.ext he)
  have hone : (1 : Fin 8).val = 1 := rfl
  rcases s with ⟨a, b, c, d, e⟩
  have ha := a.isLt; have hb := b.isLt; have hc := c.isLt; have hd := d.isLt; have he := e.isLt
  dsimp only at h7 h
  simp only [nextRow, ne_eq, h, not_false_eq_true, if_true, ofNat, toNat, mk.injEq, Fin.ext_iff,
    Fin.val_add, hone]
  omega

theorem checkedColumn_eq (s : ScrollAddress) :
    (s.checkedColumn : EStateM BusError σ ScrollAddress) = pure s.nextColumn := by
  have hlt := s.toNat_lt
  unfold checkedColumn
  by_cases hlast : s.coarseX = 31
  · rw [if_pos hlast]
  · rw [if_neg hlast, within_of_lt (by omega), pure_bind, ofNat_toNat_add_one hlast]

theorem checkedRow_eq (s : ScrollAddress) :
    (s.checkedRow : EStateM BusError σ ScrollAddress) = pure s.nextRow := by
  have hlt := s.toNat_lt
  unfold checkedRow
  by_cases hfine : s.fineY = 7
  · rw [if_neg fun h => h hfine]
    split
    · rfl
    case isFalse hwraps =>
      have h29 : s.coarseY ≠ 29 := fun h => hwraps (.inl h)
      have hcoarse := s.coarseY.isLt
      rw [within_of_lt (by omega), pure_bind, nextRow, if_neg fun h => h hfine, if_neg h29,
        if_neg h29]
      rfl
  · rw [if_pos hfine, within_of_lt (by omega), pure_bind, ofNat_toNat_add_row hfine]

end ScrollAddress

namespace Ppu
section
variable {β : Type}

theorem backgroundTable_le (c : Control) : c.backgroundTable.toNat ≤ 0x1000 := by
  unfold Control.backgroundTable
  split <;> decide

def checkedComposed (p : Ppu) (x : Nat) : EStateM BusError (Wired Ppu β) UInt16 := do
  let sprite := p.spriteAt x
  let background := p.backgroundAt x
  if sprite.isOpaque && (!sprite.behindBackground || background.color == 0) then
    return .ofNat (← within 0x10000 (0x3F10 + sprite.palette.val * 4 + sprite.color.val))
  else if background.color != 0 then
    return .ofNat (← within 0x10000 (0x3F00 + background.palette.val * 4 + background.color.val))
  else return 0x3F00

theorem checkedComposed_eq (p : Ppu) (x : Nat) :
    (p.checkedComposed x : EStateM BusError (Wired Ppu β) UInt16) = pure (p.composedCell x) := by
  have hbound (palette color : Fin 4) (base : Nat) (h : base ≤ 0x3F10) :
      base + palette.val * 4 + color.val < 0x10000 := by omega
  unfold checkedComposed composedCell
  dsimp only
  split
  · rw [within_of_lt (hbound _ _ _ (by decide)), pure_bind]
    rfl
  · split
    · rw [within_of_lt (hbound _ _ _ (by decide)), pure_bind]
      rfl
    · rfl

/-- The background pixel is picked `fineX` bits below the highest of 16. -/
def checkedFine : EStateM BusError (Wired Ppu β) Unit := do
  let _ ← less 15 (← Wired.look (·.fineX.val))

theorem checkedFine_eq : (checkedFine : EStateM BusError (Wired Ppu β) Unit) = pure () := by
  funext w
  change (less 15 w.chip.fineX.val >>= fun _ => pure () : EStateM BusError (Wired Ppu β) Unit) w = _
  rw [less_of_le (by omega)]
  rfl

def checkedCell (x : Nat) : EStateM BusError (Wired Ppu β) UInt16 := do
  if ← Wired.look (·.mask.rendering) then
    checkedFine
    let x ← within 256 x
    if ← Wired.look (·.hitsSpriteZero x) then
      Wired.update fun p => { p with status := { p.status with spriteZeroHit := true } }
    checkedComposed (← Wired.look id) x
  else Wired.look blankCell

theorem checkedCell_eq {x : Nat} (h : x < 256) :
    (checkedCell x : EStateM BusError (Wired Ppu β) UInt16) = chooseCell x := by
  have hcell : (Wired.look id >>= fun p => p.checkedComposed x :
      EStateM BusError (Wired Ppu β) UInt16) = Wired.look (·.composedCell x) := by
    funext w
    exact congrFun (checkedComposed_eq w.chip x) w
  unfold checkedCell chooseCell
  dsimp only
  rw [checkedFine_eq, within_of_lt h]
  simp only [pure_bind, hcell]

/-- Moves the address of the data register. The sum is taken before it is cut to 15 bits. -/
def checkedAddressStep : EStateM BusError (Wired Ppu β) Unit := do
  let p ← Wired.look id
  let n ← within 0x10000 (p.v.toNat + p.control.increment)
  Wired.update fun p => { p with v := .ofNat n }

theorem checkedAddressStep_eq :
    (checkedAddressStep : EStateM BusError (Wired Ppu β) Unit) = Wired.update stepAddress := by
  funext w
  have hv := w.chip.v.toNat_lt
  have hstep : w.chip.control.increment ≤ 32 := by
    unfold Control.increment
    split <;> decide
  change (within 0x10000 (w.chip.v.toNat + w.chip.control.increment) >>= fun n =>
    Wired.update fun p => { p with v := .ofNat n } : EStateM BusError (Wired Ppu β) Unit) w = _
  rw [within_of_lt (by omega)]
  rfl

/-- As `advance`: the count of dots is stepped first, that of lines when the dots run out. -/
def checkedAdvance (rendering : Bool) : EStateM BusError (Wired Ppu β) Unit := do
  let p ← Wired.look id
  unless p.oddFrame && rendering && p.beam == ⟨Beam.preRenderLine, 339⟩ do
    let dot ← within 0x10000 (p.beam.dot.val + 1)
    if dot = 341 then
      let _ ← within 0x10000 (p.beam.scanline.val + 1)
  Wired.update (advance rendering)

theorem checkedAdvance_eq (rendering : Bool) :
    (checkedAdvance rendering : EStateM BusError (Wired Ppu β) Unit) =
      Wired.update (advance rendering) := by
  unfold checkedAdvance
  refine (Wired.look_bind_congr (k := fun _ => Wired.update (advance rendering)) fun p => ?_).trans
    rfl
  have hdot := p.beam.dot.isLt
  have hline := p.beam.scanline.isLt
  dsimp only [id]
  split
  · rfl
  · rw [within_of_lt (by omega), pure_bind]
    split
    · rw [within_of_lt (by omega)]
      rfl
    · rfl

variable [Bus β]

def checkedTile : EStateM BusError (Wired Ppu β) Tile := do
  let v ← Wired.look (·.v)
  let name ← Wired.read v.tileAddress
  let palettes ← Wired.read v.attributeAddress
  let table ← Wired.look (·.control.backgroundTable)
  let address ← within 0x10000 (table.toNat + name.toNat * 16 + v.fineY.val)
  let low ← Wired.read (.ofNat address)
  let next ← within 0x10000 (address + 8)
  let high ← Wired.read (.ofNat next)
  return ⟨⟨low, high⟩, v.paletteIn palettes⟩

theorem checkedTile_eq : (checkedTile : EStateM BusError (Wired Ppu β) Tile) = fetchTile := by
  unfold checkedTile fetchTile
  refine bind_congr fun v => bind_congr fun name => bind_congr fun palettes =>
    Wired.look_bind_congr fun p => ?_
  have hname := name.toNat_lt
  have htable := backgroundTable_le p.control
  have haddress : UInt16.ofNat (p.control.backgroundTable.toNat + name.toNat * 16 + v.fineY.val) =
      p.control.backgroundTable + UInt16.ofNat (name.toNat * 16 + v.fineY.val) := by
    rw [Nat.add_assoc, UInt16.ofNat_add, UInt16.ofNat_toNat]
  rw [within_of_lt (by omega), pure_bind, haddress]
  refine bind_congr fun low => ?_
  rw [within_of_lt (by omega), pure_bind, UInt16.ofNat_add, haddress]
  rfl

def checkedFetch : EStateM BusError (Wired Ppu β) Unit := do
  let beam ← Wired.look (·.beam)
  if beam.dot.val ≤ 248 ∧ beam.dot.val % 8 = 0 then
    let tile ← checkedTile
    let p ← Wired.look id
    let v ← if beam.dot = 248 then (p.v.withColumnOf p.t).checkedRow else p.v.checkedColumn
    Wired.update fun p => { p with background := p.background.loadNext tile, v := v }
  else if 280 ≤ beam.dot.val ∧ beam.dot.val ≤ 304 ∧ beam.scanline = Beam.preRenderLine then
    Wired.update fun p => { p with v := p.v.withRowOf p.t }
  else if beam.dot = 321 then
    let tile ← checkedTile
    let v ← (← Wired.look (·.v)).checkedColumn
    Wired.update fun p => { p with background := .loadFirst tile, v := v }

theorem checkedFetch_eq :
    (checkedFetch : EStateM BusError (Wired Ppu β) Unit) = fetchBackground := by
  unfold checkedFetch fetchBackground
  refine bind_congr fun beam => ?_
  rw [checkedTile_eq]
  simp only [ScrollAddress.checkedRow_eq, ScrollAddress.checkedColumn_eq, pure_bind]
  split
  · refine bind_congr fun tile => ?_
    funext w
    split <;> rfl
  · rfl

/-! ### A dot -/

def checkedPrepare : EStateM BusError (Wired Ppu β) Unit := do
  if ← Wired.look (·.mask.rendering) then
    let p ← Wired.look fun p => (p.oam, p.beam.scanline.val, p.control)
    let overflow ← Wired.onPart (·.sprites) (fun s p => { p with sprites := s })
      (SpriteLine.checkedEvaluate p.1 p.2.1 p.2.2.spriteHeight p.2.2.spriteTable)
    if overflow then
      Wired.update fun p => { p with status := { p.status with spriteOverflow := true } }
  else
    Wired.update fun p => { p with sprites := .empty }

theorem checkedPrepare_eq :
    (checkedPrepare : EStateM BusError (Wired Ppu β) Unit) = prepareSprites := by
  unfold checkedPrepare prepareSprites
  simp only [SpriteLine.checkedEvaluate_eq]

def checkedPixel : EStateM BusError (Wired Ppu β) Unit := do
  let beam ← Wired.look (·.beam)
  match beam.pixel? with
  | none => return
  | some i =>
    let cell ← checkedCell beam.dot.val
    let entry ← Wired.read cell
    Wired.update (drawPixel i entry)

theorem checkedPixel_eq :
    (checkedPixel : EStateM BusError (Wired Ppu β) Unit) = renderPixel := by
  unfold checkedPixel renderPixel
  refine bind_congr fun beam => ?_
  cases hi : beam.pixel? with
  | none => rfl
  | some i =>
    have hdot : beam.dot.val < 256 := by
      unfold Beam.pixel? at hi
      split at hi
      case isTrue h => exact h.2
      case isFalse => cases hi
    dsimp only
    rw [checkedCell_eq hdot]

def checkedStep : EStateM BusError (Wired Ppu β) Tick := do
  let tick ← Wired.look tick
  Wired.update beginDot
  let rendering ← Wired.look (·.mask.rendering)
  let beam ← Wired.look (·.beam)
  if beam.onVisibleLine && beam.dot == 0 then checkedPrepare
  if rendering && beam.onRenderLine then checkedFetch
  checkedPixel
  if rendering && beam.onRenderLine && decide (beam.dot.val < 256) then
    Wired.update fun p => { p with background := p.background.shift }
  checkedAdvance rendering
  return tick

theorem checkedStep_eq : (checkedStep : EStateM BusError (Wired Ppu β) Tick) = step := by
  unfold checkedStep step
  simp only [checkedPrepare_eq, checkedFetch_eq, checkedPixel_eq, checkedAdvance_eq]

/-! ### Registers -/

def checkedData : EStateM BusError (Wired Ppu β) UInt8 := do
  let address ← Wired.look (·.v.busAddress)
  if 0x3F00 ≤ address then
    let below ← less address.toNat 0x1000
    let below ← Wired.read (.ofNat below)
    Wired.update fun p => { p with readBuffer := below }
    let byte ← Wired.read address
    checkedAddressStep
    return byte
  else
    let fresh ← Wired.read address
    let byte ← Wired.look (·.readBuffer)
    Wired.update fun p => { p with readBuffer := fresh }
    checkedAddressStep
    return byte

theorem checkedData_eq : (checkedData : EStateM BusError (Wired Ppu β) UInt8) = readData := by
  unfold checkedData readData
  refine bind_congr fun address => ?_
  rw [checkedAddressStep_eq]
  split
  case isTrue hpalette =>
    have hle : 0x3F00 ≤ address.toNat := UInt16.le_iff_toNat_le.1 hpalette
    have hbelow : UInt16.ofNat (address.toNat - 0x1000) = address - 0x1000 := by
      apply UInt16.toNat_inj.1
      have hlt := address.toNat_lt
      rw [UInt16.toNat_sub_of_le _ _ (UInt16.le_iff_toNat_le.2 (by change 0x1000 ≤ _; omega)),
        UInt16.toNat_ofNat', Nat.mod_eq_of_lt (by omega)]
      rfl
    rw [less_of_le (by omega), pure_bind, hbelow]
  case isFalse => rfl

def checkedReadRegister (address : UInt16) : EStateM BusError (Wired Ppu β) UInt8 := do
  match address.toNat % 8 with
  | 2 =>
    let byte ← Wired.look statusByte
    Wired.update statusRead
    return byte
  | 4 => Wired.look objectByte
  | 7 => checkedData
  | _ => Wired.look (·.latch)

def checkedWriteRegister (address : UInt16) (data : UInt8) :
    EStateM BusError (Wired Ppu β) Unit := do
  if address.toNat % 8 = 7 then
    Wired.update fun p => { p with latch := data }
    Wired.write (← Wired.look (·.v.busAddress)) data
    checkedAddressStep
  else writeRegister address data

theorem checkedReadRegister_eq (address : UInt16) :
    (checkedReadRegister address : EStateM BusError (Wired Ppu β) UInt8) =
      readRegister address := by
  unfold checkedReadRegister
  rw [checkedData_eq]
  rfl

theorem checkedWriteRegister_eq (address : UInt16) (data : UInt8) :
    (checkedWriteRegister address data : EStateM BusError (Wired Ppu β) Unit) =
      writeRegister address data := by
  unfold checkedWriteRegister
  split
  case isTrue h7 =>
    unfold writeRegister
    rw [h7, checkedAddressStep_eq]
    rfl
  case isFalse => rfl

end
end Ppu
end NesConsole
