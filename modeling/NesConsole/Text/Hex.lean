/-! Fixed-width hexadecimal with upper-case digits, as log lines and messages write bytes and
addresses. -/
namespace NesConsole.Hex

def digit (n : Nat) : Char :=
  if n < 10 then Char.ofNat (48 + n) else Char.ofNat (55 + n)

def digits : (width : Nat) → (n : Nat) → List Char
  | 0, _ => []
  | width + 1, n => digits width (n / 16) ++ [digit (n % 16)]

theorem length_digits (width n : Nat) : (digits width n).length = width := by
  induction width generalizing n with
  | zero => rfl
  | succ width ih => simp [digits, ih]

def byte (b : UInt8) : String := String.ofList (digits 2 b.toNat)
def word (w : UInt16) : String := String.ofList (digits 4 w.toNat)

end NesConsole.Hex
