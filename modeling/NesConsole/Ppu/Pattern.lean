import NesConsole.Word
/-! A row of a pattern: eight pixels of two bits, held as two bit planes. -/
namespace NesConsole

structure PatternRow where
  low : UInt8
  high : UInt8
  deriving DecidableEq, Repr, Inhabited

def PatternRow.color (row : PatternRow) (column : Nat) : Fin 4 :=
  ⟨(hasBit row.high (7 - column)).toNat * 2 + (hasBit row.low (7 - column)).toNat, by
    have := Bool.toNat_le (hasBit row.high (7 - column))
    have := Bool.toNat_le (hasBit row.low (7 - column))
    omega⟩

end NesConsole
