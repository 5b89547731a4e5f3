import NesConsole.Ppu.Pattern
/-! The background pixels that are fetched and not yet drawn: the tile being drawn and the one
after it, leftmost pixel first. Past the end of the queue the background is transparent. -/
namespace NesConsole

structure BackgroundPixel where
  color : Fin 4 := 0
  palette : Fin 4 := 0
  deriving DecidableEq, Repr, Inhabited

structure Tile where
  row : PatternRow
  palette : Fin 4
  deriving DecidableEq, Repr, Inhabited

def Tile.pixels (t : Tile) : List BackgroundPixel :=
  (List.range 8).map fun column => ⟨t.row.color column, t.palette⟩

abbrev BackgroundQueue := List BackgroundPixel

namespace BackgroundQueue

def loadNext (t : Tile) (q : BackgroundQueue) : BackgroundQueue :=
  (q.take 8).rightpad 8 {} ++ t.pixels

def loadFirst (t : Tile) : BackgroundQueue := t.pixels

def shift (q : BackgroundQueue) : BackgroundQueue := q.tail

def pixel (fineX : Fin 8) (q : BackgroundQueue) : BackgroundPixel := q[fineX.val]?.getD {}

end BackgroundQueue
end NesConsole
