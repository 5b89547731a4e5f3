/-! Memory seen through banks of one size. Bank numbers wrap on the whole banks that exist; a
memory smaller than a bank counts as one. -/
namespace NesConsole.Bank

def count (size bankSize : Nat) : Nat := max (size / bankSize) 1

def count? (size bankSize : Nat) : Option Nat :=
  if bankSize = 0 then none else some (count size bankSize)

def place? (size bank bankSize offset : Nat) : Option Nat :=
  (count? size bankSize).map fun n => bank % n * bankSize + offset

end NesConsole.Bank
