/-! Bits of a byte, and words put together from bytes. -/
namespace NesConsole

/-- Numerals of a finite type count modulo its size. -/
instance finNumeral {n k : Nat} : OfNat (Fin (n + 1)) k where
  ofNat := ⟨k % (n + 1), Nat.mod_lt k (Nat.succ_pos n)⟩

def hasBit (b : UInt8) (k : Nat) : Bool := b.toNat.testBit k

def bitValue (set : Bool) (k : Nat) : UInt8 := if set then 1 <<< UInt8.ofNat k else 0

def wordOf (low high : UInt8) : UInt16 := UInt16.ofNat (high.toNat * 256 + low.toNat)

def lowByte (w : UInt16) : UInt8 := UInt8.ofNat (w.toNat % 256)
def highByte (w : UInt16) : UInt8 := UInt8.ofNat (w.toNat / 256)

theorem toNat_wordOf (low high : UInt8) :
    (wordOf low high).toNat = high.toNat * 256 + low.toNat := by
  have hl := low.toNat_lt
  have hh := high.toNat_lt
  simp only [wordOf, UInt16.toNat_ofNat']
  omega

theorem toNat_lowByte (w : UInt16) : (lowByte w).toNat = w.toNat % 256 := by
  simp [lowByte, UInt8.toNat_ofNat']

theorem toNat_highByte (w : UInt16) : (highByte w).toNat = w.toNat / 256 := by
  have hw := w.toNat_lt
  simp only [highByte, UInt8.toNat_ofNat']
  omega

@[simp] theorem wordOf_bytes (w : UInt16) : wordOf (lowByte w) (highByte w) = w := by
  apply UInt16.toNat_inj.1
  rw [toNat_wordOf, toNat_lowByte, toNat_highByte]
  omega

@[simp] theorem lowByte_wordOf (low high : UInt8) : lowByte (wordOf low high) = low := by
  apply UInt8.toNat_inj.1
  have := low.toNat_lt
  rw [toNat_lowByte, toNat_wordOf]
  omega

@[simp] theorem highByte_wordOf (low high : UInt8) : highByte (wordOf low high) = high := by
  apply UInt8.toNat_inj.1
  have := low.toNat_lt
  rw [toNat_highByte, toNat_wordOf]
  omega

def samePage (a b : UInt16) : Bool := highByte a == highByte b

end NesConsole
