import NesConsole.Ppu.Basic
/-! One dot of the picture: flags of the vertical blank, the sprites of a line, the fetches of the
background, the pixel under the beam, and the step to the next dot. -/
namespace NesConsole
namespace Ppu

def tick (p : Ppu) : Tick where
  nmi := p.nmiPending || (p.beam == .vblankStart && p.control.raisesNmi)
  frameComplete := p.beam == .vblankStart

def beginDot (p : Ppu) : Ppu :=
  let p := { p with nmiPending := false }
  if p.beam = .vblankStart then
    { p with status := { p.status with vblank := true }, frames := p.frames + 1 }
  else if p.beam = .flagsEnd then { p with status := {} }
  else p

/-- The beam moves on. An odd frame leaves out its last dot while something is drawn. -/
def advance (rendering : Bool) (p : Ppu) : Ppu :=
  if p.oddFrame && rendering && p.beam == ⟨Beam.preRenderLine, 339⟩ then
    { p with beam := ⟨0, 0⟩, oddFrame := false }
  else
    { p with beam := p.beam.next, oddFrame := p.oddFrame ^^ (p.beam == ⟨Beam.preRenderLine, 340⟩) }

def backgroundCell (palette color : Fin 4) : UInt16 :=
  UInt16.ofNat (0x3F00 + palette.val * 4 + color.val)
def spriteCell (palette color : Fin 4) : UInt16 :=
  UInt16.ofNat (0x3F10 + palette.val * 4 + color.val)

def backgroundAt (p : Ppu) (x : Nat) : BackgroundPixel :=
  if p.mask.showsBackgroundAt x then p.background.pixel p.fineX else {}

def spriteAt (p : Ppu) (x : Nat) : SpritePixel :=
  if p.mask.showsSpritesAt x then p.sprites.pixels[x]?.getD {} else {}

def hitsSpriteZero (p : Ppu) (x : Nat) : Bool :=
  let sprite := p.spriteAt x
  sprite.spriteZero && sprite.isOpaque && (p.backgroundAt x).color != 0 && x != 255

def composedCell (p : Ppu) (x : Nat) : UInt16 :=
  let sprite := p.spriteAt x
  let background := p.backgroundAt x
  if sprite.isOpaque && (!sprite.behindBackground || background.color == 0) then
    spriteCell sprite.palette sprite.color
  else if background.color != 0 then backgroundCell background.palette background.color
  else 0x3F00

/-- With both layers off the backdrop is shown, or the palette cell that the address points at. -/
def blankCell (p : Ppu) : UInt16 :=
  if 0x3F00 ≤ p.v.busAddress then p.v.busAddress else 0x3F00

section
variable {β : Type} [Bus β]

def fetchTile : EStateM BusError (Wired Ppu β) Tile := do
  let v ← Wired.look (·.v)
  let name ← Wired.read v.tileAddress
  let palettes ← Wired.read v.attributeAddress
  let table ← Wired.look (·.control.backgroundTable)
  let address := table + UInt16.ofNat (name.toNat * 16 + v.fineY.val)
  let low ← Wired.read address
  let high ← Wired.read (address + 8)
  return ⟨⟨low, high⟩, v.paletteIn palettes⟩

/-- The fetches run a tile ahead of the beam: dot 321 takes the first tile of the next line, dots
0, 8, ..., 248 those after it. -/
def fetchBackground : EStateM BusError (Wired Ppu β) Unit := do
  let beam ← Wired.look (·.beam)
  if beam.dot.val ≤ 248 ∧ beam.dot.val % 8 = 0 then
    let tile ← fetchTile
    Wired.update fun p =>
      { p with
        background := p.background.loadNext tile
        v := if beam.dot = 248 then (p.v.withColumnOf p.t).nextRow else p.v.nextColumn }
  else if 280 ≤ beam.dot.val ∧ beam.dot.val ≤ 304 ∧ beam.scanline = Beam.preRenderLine then
    Wired.update fun p => { p with v := p.v.withRowOf p.t }
  else if beam.dot = 321 then
    let tile ← fetchTile
    Wired.update fun p =>
      { p with background := .loadFirst tile, v := p.v.nextColumn }

def prepareSprites : EStateM BusError (Wired Ppu β) Unit := do
  if ← Wired.look (·.mask.rendering) then
    let p ← Wired.look fun p => (p.oam, p.beam.scanline.val, p.control)
    let overflow ← Wired.onPart (·.sprites) (fun s p => { p with sprites := s })
      (SpriteLine.evaluate p.1 p.2.1 p.2.2.spriteHeight p.2.2.spriteTable)
    if overflow then
      Wired.update fun p => { p with status := { p.status with spriteOverflow := true } }
  else
    Wired.update fun p => { p with sprites := .empty }

def chooseCell (x : Nat) : EStateM BusError (Wired Ppu β) UInt16 := do
  if ← Wired.look (·.mask.rendering) then
    if ← Wired.look (·.hitsSpriteZero x) then
      Wired.update fun p => { p with status := { p.status with spriteZeroHit := true } }
    Wired.look (·.composedCell x)
  else Wired.look blankCell

def drawPixel (i : Fin (256 * 240)) (entry : UInt8) (p : Ppu) : Ppu :=
  let entry := if p.mask.greyscale then entry &&& 0x30 else entry
  { p with picture := p.picture.set i (colorOf entry) }

def renderPixel : EStateM BusError (Wired Ppu β) Unit := do
  let beam ← Wired.look (·.beam)
  match beam.pixel? with
  | none => return
  | some i =>
    let cell ← chooseCell beam.dot.val
    let entry ← Wired.read cell
    Wired.update (drawPixel i entry)

def step : EStateM BusError (Wired Ppu β) Tick := do
  let tick ← Wired.look tick
  Wired.update beginDot
  let rendering ← Wired.look (·.mask.rendering)
  let beam ← Wired.look (·.beam)
  if beam.onVisibleLine && beam.dot == 0 then prepareSprites
  if rendering && beam.onRenderLine then fetchBackground
  renderPixel
  if rendering && beam.onRenderLine && decide (beam.dot.val < 256) then
    Wired.update fun p => { p with background := p.background.shift }
  Wired.update (advance rendering)
  return tick

end
end Ppu
end NesConsole
