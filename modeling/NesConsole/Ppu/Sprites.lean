import NesConsole.Bus
import NesConsole.Ppu.Pattern
/-! The sprites of one line: the first eight in object memory that cover the line, decoded into a
pixel for every column. -/
namespace NesConsole

abbrev ObjectMemory := Vector UInt8 256

structure SpriteEntry where
  /-- The line above the first row. -/
  y : UInt8
  tile : UInt8
  attributes : UInt8
  x : UInt8
  deriving DecidableEq, Repr, Inhabited

def ObjectMemory.entry (oam : ObjectMemory) (i : Fin 64) : SpriteEntry where
  y := oam[4 * i.val]
  tile := oam[4 * i.val + 1]
  attributes := oam[4 * i.val + 2]
  x := oam[4 * i.val + 3]

namespace SpriteEntry

def palette (e : SpriteEntry) : Fin 4 := ⟨e.attributes.toNat % 4, Nat.mod_lt _ (by decide)⟩
def behindBackground (e : SpriteEntry) : Bool := hasBit e.attributes 5
def flipsAcross (e : SpriteEntry) : Bool := hasBit e.attributes 6
def flipsDown (e : SpriteEntry) : Bool := hasBit e.attributes 7

def covers (e : SpriteEntry) (scanline height : Nat) : Bool :=
  decide (e.y.toNat < scanline) && decide (scanline - 1 - e.y.toNat < height)

/-- Whether the distance from `scanline` to the sprite can be counted: lines are 16-bit numbers with
a sign. -/
def inReach (e : SpriteEntry) (scanline : Nat) : Bool :=
  decide (scanline < 0x8000) || decide (0x8001 + e.y.toNat ≤ scanline)

/-- Where the low plane of the row on `scanline` stands. A sprite 16 rows tall takes its table
from the lowest bit of its tile and stacks two tiles. -/
def patternAddress (e : SpriteEntry) (scanline height : Nat) (table : UInt16) : Nat :=
  let fromTop := scanline - 1 - e.y.toNat
  let row := if e.flipsDown then height - 1 - fromTop else fromTop
  let tile := e.tile.toNat
  if height = 16 then tile % 2 * 0x1000 + (tile / 2 * 2 + row / 8) * 16 + row % 8
  else table.toNat + tile * 16 + row

def colorAt (e : SpriteEntry) (row : PatternRow) (i : Nat) : Fin 4 :=
  row.color (if e.flipsAcross then 7 - i else i)

end SpriteEntry

structure SpritePixel where
  color : Fin 4 := 0
  palette : Fin 4 := 0
  behindBackground : Bool := false
  /-- Whether the pixel belongs to the first entry of object memory. -/
  spriteZero : Bool := false
  deriving DecidableEq, Repr, Inhabited

def SpritePixel.isOpaque (p : SpritePixel) : Bool := p.color != 0

structure SpriteLine where
  pixels : Vector SpritePixel 256
  /-- Sprites selected, at most eight. -/
  count : Nat

namespace SpriteLine

def empty : SpriteLine := ⟨Vector.replicate 256 {}, 0⟩

instance : Inhabited SpriteLine := ⟨empty⟩

def paintPixel (x : Nat) (p : SpritePixel) (line : SpriteLine) : SpriteLine :=
  if h : x < 256 then
    if line.pixels[x].isOpaque || !p.isOpaque then line
    else { line with pixels := line.pixels.set x p }
  else line

def paint (i : Fin 64) (e : SpriteEntry) (row : PatternRow) (line : SpriteLine) : SpriteLine :=
  (List.range 8).foldl (fun line column =>
    line.paintPixel (e.x.toNat + column)
      { color := e.colorAt row column
        palette := e.palette
        behindBackground := e.behindBackground
        spriteZero := i == 0 }) line

section
variable {β : Type} [Bus β]

def readPattern (address : Nat) : EStateM BusError (Wired SpriteLine β) UInt8 :=
  if address < 0x10000 then Wired.read (UInt16.ofNat address) else throw .overflow

def draw (oam : ObjectMemory) (scanline height : Nat) (table : UInt16) (i : Fin 64) :
    EStateM BusError (Wired SpriteLine β) Unit := do
  let entry := oam.entry i
  let address := entry.patternAddress scanline height table
  Wired.update fun line => { line with count := line.count + 1 }
  let low ← readPattern address
  let high ← readPattern (address + 8)
  Wired.update (paint i entry ⟨low, high⟩)

def covering (oam : ObjectMemory) (scanline height : Nat) : List (Fin 64) :=
  (List.finRange 64).filter fun i => (oam.entry i).covers scanline height

/-- Decodes the line anew and answers whether more than eight sprites cover it. -/
def evaluate (oam : ObjectMemory) (scanline height : Nat) (table : UInt16) :
    EStateM BusError (Wired SpriteLine β) Bool := do
  unless (List.finRange 64).all fun i => (oam.entry i).inReach scanline do
    throw .overflow
  Wired.update fun _ => empty
  let selected := covering oam scanline height
  (selected.take 8).forM (draw oam scanline height table)
  return decide (8 < selected.length)

end
end SpriteLine
end NesConsole
