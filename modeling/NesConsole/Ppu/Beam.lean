import NesConsole.Word
/-! The position of the beam: 262 lines of 341 dots make a frame. The picture takes the first 256
dots of the first 240 lines. -/
namespace NesConsole

structure Beam where
  scanline : Fin 262
  dot : Fin 341
  deriving DecidableEq, Repr, Inhabited

namespace Beam

/-- The line before the first visible one, where a frame's fetches begin. -/
def preRenderLine : Fin 262 := 261

def vblankStart : Beam := ⟨241, 1⟩

def flagsEnd : Beam := ⟨preRenderLine, 1⟩

def next (b : Beam) : Beam :=
  { scanline := if b.dot = 340 then b.scanline + 1 else b.scanline, dot := b.dot + 1 }

def onVisibleLine (b : Beam) : Bool := decide (b.scanline.val < 240)

def onRenderLine (b : Beam) : Bool := b.onVisibleLine || b.scanline == preRenderLine

def pixel? (b : Beam) : Option (Fin (256 * 240)) :=
  if h : b.scanline.val < 240 ∧ b.dot.val < 256 then
    some ⟨b.scanline.val * 256 + b.dot.val, by omega⟩
  else none

end Beam
end NesConsole
