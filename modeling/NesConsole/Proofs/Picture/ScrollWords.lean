import NesConsole.Proofs.Safety.CheckedPicture

/-! The scroll address as a 16-bit word: its fields from the highest bit but one. Each move of the
address is the arithmetic of words that it stands for, with masks and sums. No sum leaves 15 bits,
so that no mask is needed after it. -/
namespace NesConsole

/-! ### Fields and bits -/

namespace ScrollAddress

def word (s : ScrollAddress) : UInt16 := .ofNat s.toNat

def ofWord (x : UInt16) : ScrollAddress := .ofNat x.toNat

theorem toNat_word (s : ScrollAddress) : s.word.toNat = s.toNat := by
  have h := s.toNat_lt
  rw [word, UInt16.toNat_ofNat', Nat.mod_eq_of_lt (by omega)]

@[simp] theorem ofWord_word (s : ScrollAddress) : ofWord s.word = s := by
  rw [ofWord, toNat_word, ofNat_toNat]

theorem word_lt (s : ScrollAddress) : s.word.toNat < 0x8000 := by
  rw [toNat_word]
  exact s.toNat_lt

theorem toNat_ofWord {x : UInt16} (h : x.toNat < 0x8000) : (ofWord x).toNat = x.toNat := by
  rw [ofWord, toNat_ofNat, Nat.mod_eq_of_lt h]

theorem eq_word {x : UInt16} {s : ScrollAddress} (hx : x.toNat < 0x8000) (h : ofWord x = s) :
    x = s.word := by
  rw [← UInt16.toNat_inj, toNat_word, ← h, toNat_ofWord hx]

def zip (f : ∀ {n : Nat}, Fin n → Fin n → Fin n) (a b : ScrollAddress) : ScrollAddress where
  fineY := f a.fineY b.fineY
  tableY := f a.tableY b.tableY
  tableX := f a.tableX b.tableX
  coarseY := f a.coarseY b.coarseY
  coarseX := f a.coarseX b.coarseX

theorem ofWord_and (x y : UInt16) :
    ofWord (x &&& y) = zip (· &&& ·) (ofWord x) (ofWord y) := by
  have field (i k : Nat) {a b : Nat} :
      (a &&& b) / 2 ^ i % 2 ^ k = a / 2 ^ i % 2 ^ k &&& b / 2 ^ i % 2 ^ k := by
    rw [Nat.and_div_two_pow, Nat.and_mod_two_pow]
  simp only [ofWord, ofNat, zip, UInt16.toNat_and, mk.injEq, Fin.ext_iff, Fin.and_val]
  exact ⟨field 12 3, field 11 1, field 10 1, field 5 5, Nat.and_mod_two_pow (n := 5)⟩

theorem ofWord_or (x y : UInt16) :
    ofWord (x ||| y) = zip (· ||| ·) (ofWord x) (ofWord y) := by
  have low (k : Nat) {a b : Nat} : (a ||| b) % 2 ^ k = (a % 2 ^ k ||| b % 2 ^ k) % 2 ^ k := by
    rw [Nat.or_mod_two_pow, Nat.or_mod_two_pow, Nat.mod_mod, Nat.mod_mod]
  have field (i k : Nat) {a b : Nat} :
      (a ||| b) / 2 ^ i % 2 ^ k = (a / 2 ^ i % 2 ^ k ||| b / 2 ^ i % 2 ^ k) % 2 ^ k := by
    rw [Nat.or_div_two_pow, low]
  simp only [ofWord, ofNat, zip, UInt16.toNat_or, mk.injEq, Fin.ext_iff, Fin.or_val]
  exact ⟨field 12 3, field 11 1, field 10 1, field 5 5, low 5⟩

theorem ofWord_xor (x y : UInt16) :
    ofWord (x ^^^ y) = zip (· ^^^ ·) (ofWord x) (ofWord y) := by
  have low (k : Nat) {a b : Nat} : (a ^^^ b) % 2 ^ k = (a % 2 ^ k ^^^ b % 2 ^ k) % 2 ^ k := by
    rw [Nat.xor_mod_two_pow, Nat.xor_mod_two_pow, Nat.mod_mod, Nat.mod_mod]
  have field (i k : Nat) {a b : Nat} :
      (a ^^^ b) / 2 ^ i % 2 ^ k = (a / 2 ^ i % 2 ^ k ^^^ b / 2 ^ i % 2 ^ k) % 2 ^ k := by
    rw [Nat.xor_div_two_pow, low]
  simp only [ofWord, ofNat, zip, UInt16.toNat_xor, mk.injEq, Fin.ext_iff, Fin.xor_val]
  exact ⟨field 12 3, field 11 1, field 10 1, field 5 5, low 5⟩

end ScrollAddress

namespace ScrollWord
open ScrollAddress

theorem and_ones : (∀ a : Fin 8, a &&& 7 = a) ∧ (∀ a : Fin 2, a &&& 1 = a) ∧
    ∀ a : Fin 32, a &&& 31 = a := by decide

theorem and_zeros : (∀ a : Fin 8, a &&& 0 = 0) ∧ (∀ a : Fin 2, a &&& 0 = 0) ∧
    ∀ a : Fin 32, a &&& 0 = 0 := by decide

theorem or_zeros : (∀ a : Fin 8, a ||| 0 = a) ∧ (∀ a : Fin 2, a ||| 0 = a) ∧
    ∀ a : Fin 32, a ||| 0 = a := by decide

theorem zeros_or : (∀ a : Fin 8, 0 ||| a = a) ∧ (∀ a : Fin 2, 0 ||| a = a) ∧
    ∀ a : Fin 32, 0 ||| a = a := by decide

theorem xor_zeros : (∀ a : Fin 8, a ^^^ 0 = a) ∧ (∀ a : Fin 2, a ^^^ 0 = a) ∧
    ∀ a : Fin 32, a ^^^ 0 = a := by decide

theorem xor_one : ∀ a : Fin 2, a ^^^ 1 = a + 1 := by decide

theorem and_eq_word (x : UInt16) {mask : UInt16} (hmask : mask.toNat < 0x8000) :
    x &&& mask = (zip (· &&& ·) (ofWord x) (ofWord mask)).word := by
  refine eq_word (Nat.lt_of_le_of_lt ?_ hmask) (ofWord_and x mask)
  rw [UInt16.toNat_and]
  exact Nat.and_le_right

theorem and_coarseX (x : UInt16) : x &&& 0x001F = 0x001F ↔ (ofWord x).coarseX = 31 := by
  have hmask : ofWord 0x001F = ⟨0, 0, 0, 0, 31⟩ := by decide
  have hword : ∀ a : Fin 32, word ⟨0, 0, 0, 0, a⟩ = 0x001F ↔ a = 31 := by decide
  rw [and_eq_word x (by decide), hmask, ← hword]
  simp only [zip, and_ones, and_zeros]

theorem and_fineY (x : UInt16) : x &&& 0x7000 = 0x7000 ↔ (ofWord x).fineY = 7 := by
  have hmask : ofWord 0x7000 = ⟨7, 0, 0, 0, 0⟩ := by decide
  have hword : ∀ a : Fin 8, word ⟨a, 0, 0, 0, 0⟩ = 0x7000 ↔ a = 7 := by decide
  rw [and_eq_word x (by decide), hmask, ← hword]
  simp only [zip, and_ones, and_zeros]

theorem and_coarseY (x : UInt16) :
    (x &&& 0x03E0) >>> 5 = UInt16.ofNat (ofWord x).coarseY.val := by
  have hmask : ofWord 0x03E0 = ⟨0, 0, 0, 31, 0⟩ := by decide
  have hword : ∀ a : Fin 32, word ⟨0, 0, 0, a, 0⟩ >>> 5 = UInt16.ofNat a.val := by decide
  rw [and_eq_word x (by decide), hmask, ← hword]
  simp only [zip, and_ones, and_zeros]

def columnUp (x : UInt16) : UInt16 :=
  if x &&& 0x001F = 0x001F then (x &&& ~~~0x001F) ^^^ 0x0400 else x + 1

def overlay (mask old new : UInt16) : UInt16 := (old &&& ~~~mask) ||| new

def rowUp (x : UInt16) : UInt16 :=
  if x &&& 0x7000 ≠ 0x7000 then x + 0x1000
  else
    let y := x &&& ~~~0x7000
    let row := (y &&& 0x03E0) >>> 5
    if row = 29 then overlay 0x03E0 (y ^^^ 0x0800) 0
    else overlay 0x03E0 y (if row = 31 then 0 else (row + 1) <<< 5)

theorem overlay_lt {mask old new : UInt16} (hold : old.toNat < 0x8000) (hnew : new.toNat < 0x8000) :
    (overlay mask old new).toNat < 0x8000 := by
  rw [overlay, UInt16.toNat_or, UInt16.toNat_and]
  exact Nat.or_lt_two_pow (n := 15) (Nat.lt_of_le_of_lt Nat.and_le_left hold) hnew

/-- The row after row `c`, where it belongs in a word. -/
theorem row_after (c : Fin 32) : (if UInt16.ofNat c.val = 31 then 0 else
    (UInt16.ofNat c.val + 1) <<< 5 : UInt16) = word ⟨0, 0, 0, c + 1, 0⟩ := by
  revert c
  decide

section
variable {x : UInt16} (h : x.toNat < 0x8000)
include h

theorem xor_lt {y : UInt16} (mask : UInt16) (hy : y.toNat < 0x8000) :
    ((x &&& mask) ^^^ y).toNat < 0x8000 := by
  rw [UInt16.toNat_xor, UInt16.toNat_and]
  exact Nat.xor_lt_two_pow (n := 15) (Nat.lt_of_le_of_lt Nat.and_le_left h) hy

theorem columnUp_lt : (columnUp x).toNat < 0x8000 := by
  unfold columnUp
  split
  case isTrue => exact xor_lt h _ (by decide)
  case isFalse hx =>
    -- The one word whose sum has 16 bits is in its last column.
    have hlast : x.toNat ≠ 0x7FFF := by
      intro he
      obtain rfl : x = 0x7FFF := UInt16.toNat_inj.1 he
      exact hx (by decide)
    rw [UInt16.toNat_add]
    change (x.toNat + 1) % 65536 < _
    omega

theorem ofWord_columnUp : ofWord (columnUp x) = (ofWord x).nextColumn := by
  unfold columnUp
  split
  case isTrue hx =>
    have hmask : ofWord (~~~0x001F) = ⟨7, 1, 1, 31, 0⟩ := by decide
    have htable : ofWord 0x0400 = ⟨0, 0, 1, 0, 0⟩ := by decide
    have hlast := (and_coarseX x).1 hx
    rw [ofWord_xor, ofWord_and, hmask, htable, nextColumn, if_pos hlast, hlast]
    simp only [zip, and_ones, and_zeros, xor_zeros, xor_one]
    rfl
  case isFalse hx =>
    have hlast : (ofWord x).coarseX ≠ 31 := fun he => hx ((and_coarseX x).2 he)
    have hsum : (x + 1).toNat = (ofWord x).toNat + 1 := by
      rw [UInt16.toNat_add, toNat_ofWord h]
      change (x.toNat + 1) % 65536 = _
      omega
    rw [← ofNat_toNat_add_one hlast, ofWord, hsum]

theorem rowUp_lt : (rowUp x).toNat < 0x8000 := by
  unfold rowUp
  split
  case isTrue hx =>
    have hfine : (ofWord x).fineY.val ≠ 7 := fun he => hx ((and_fineY x).2 (Fin.ext he))
    have hlow : x.toNat / 4096 % 8 ≠ 7 := hfine
    rw [UInt16.toNat_add]
    change (x.toNat + 4096) % 65536 < _
    omega
  case isFalse =>
    have hy : (x &&& ~~~0x7000).toNat < 0x8000 := by
      rw [UInt16.toNat_and]
      exact Nat.lt_of_le_of_lt Nat.and_le_left h
    dsimp only
    rw [and_coarseY, row_after]
    split
    · exact overlay_lt (xor_lt h _ (by decide)) (by decide)
    · exact overlay_lt hy (word_lt _)

theorem ofWord_rowUp : ofWord (rowUp x) = (ofWord x).nextRow := by
  unfold rowUp
  split
  case isTrue hx =>
    have hfine : (ofWord x).fineY ≠ 7 := fun he => hx ((and_fineY x).2 he)
    have hsum : (x + 0x1000).toNat = (ofWord x).toNat + 0x1000 := by
      rw [UInt16.toNat_add, toNat_ofWord h]
      change (x.toNat + 4096) % 65536 = _
      omega
    rw [← ofNat_toNat_add_row hfine, ofWord, hsum]
  case isFalse hx =>
    have hfine : (ofWord x).fineY = 7 := (and_fineY x).1 (Decidable.not_not.1 hx)
    have hmask : ofWord (~~~0x7000) = ⟨0, 1, 1, 31, 31⟩ := by decide
    have hrow : ofWord (~~~0x03E0) = ⟨7, 1, 1, 0, 31⟩ := by decide
    have htable : ofWord 0x0800 = ⟨0, 1, 0, 0, 0⟩ := by decide
    have hzero : ofWord 0 = ⟨0, 0, 0, 0, 0⟩ := by decide
    have hy : ofWord (x &&& ~~~0x7000) = { ofWord x with fineY := 0 } := by
      rw [ofWord_and, hmask]
      simp only [zip, and_ones, and_zeros]
    have h29 : UInt16.ofNat (ofWord x).coarseY.val = 29 ↔ (ofWord x).coarseY = 29 := by
      generalize (ofWord x).coarseY = c
      revert c
      decide
    dsimp only
    rw [and_coarseY, hy, row_after, nextRow, if_neg (Decidable.not_not.2 hfine)]
    -- Row 31 is behind the last row, but unlike row 29 it goes back to 0 in the same table.
    by_cases hc : (ofWord x).coarseY = 29
    · rw [if_pos (h29.2 hc), if_pos hc, if_pos hc, overlay, ofWord_or, ofWord_and, ofWord_xor, hy,
        hrow, htable, hzero]
      simp only [zip, and_ones, and_zeros, or_zeros, xor_zeros, xor_one]
    · rw [if_neg fun he => hc (h29.1 he), if_neg hc, if_neg hc, overlay, ofWord_or, ofWord_and, hy,
        hrow, ofWord_word]
      simp only [zip, and_ones, and_zeros, or_zeros, zeros_or]

end

/-! Bytes that the processor writes, in the bits that they are written to. -/

theorem forall_byte {P : UInt8 → Prop} (h : ∀ n : Fin 256, P (.ofNat n.val)) (b : UInt8) : P b := by
  have hb := h ⟨b.toNat, b.toNat_lt⟩
  rwa [UInt8.ofNat_toNat] at hb

theorem tables_eq : ∀ b : UInt8, (b &&& 0x03).toUInt16 <<< 10 =
    word { tableY := (Control.mk b).tableY, tableX := (Control.mk b).tableX } :=
  forall_byte (by decide +kernel)

theorem columnByte_eq : ∀ b : UInt8, (b >>> 3).toUInt16 =
    word { coarseX := ⟨b.toNat / 8, by have := b.toNat_lt; omega⟩ } :=
  forall_byte (by decide +kernel)

theorem rowByte_eq : ∀ b : UInt8,
    (b &&& 0x07).toUInt16 <<< 12 ||| (b &&& 0xF8).toUInt16 <<< 2 =
      word { fineY := ⟨b.toNat % 8, Nat.mod_lt _ (by decide)⟩
             coarseY := ⟨b.toNat / 8, by have := b.toNat_lt; omega⟩ } :=
  forall_byte (by decide +kernel)

theorem highByte_eq : ∀ b : UInt8,
    ((b &&& 0x3F).toUInt16 <<< 8).toNat = 256 * (b.toNat % 64) :=
  forall_byte (by decide +kernel)

end ScrollWord

/-! ### Moves of the address, as moves of its word -/

namespace ScrollAddress
open ScrollWord
variable (s t : ScrollAddress)

theorem word_nextColumn : s.nextColumn.word = columnUp s.word := by
  refine (eq_word (columnUp_lt s.word_lt) ?_).symm
  rw [ofWord_columnUp s.word_lt, ofWord_word]

theorem word_nextRow : s.nextRow.word = rowUp s.word := by
  refine (eq_word (rowUp_lt s.word_lt) ?_).symm
  rw [ofWord_rowUp s.word_lt, ofWord_word]

/-- Writing whole fields. -/
theorem word_overlay {mask : UInt16} {n r : ScrollAddress}
    (h : zip (· ||| ·) (zip (· &&& ·) s (ofWord (~~~mask))) n = r) :
    r.word = overlay mask s.word n.word := by
  refine (eq_word (overlay_lt s.word_lt n.word_lt) ?_).symm
  rw [overlay, ofWord_or, ofWord_and, ofWord_word, ofWord_word, h]

theorem word_withColumnOf :
    (s.withColumnOf t).word = overlay 0x041F s.word (t.word &&& 0x041F) := by
  have hmask : ofWord 0x041F = ⟨0, 0, 1, 0, 31⟩ := by decide
  have hrest : ofWord (~~~0x041F) = ⟨7, 1, 0, 31, 0⟩ := by decide
  rw [and_eq_word t.word (by decide), ofWord_word, hmask]
  apply word_overlay
  rw [hrest]
  simp only [zip, withColumnOf, and_ones, and_zeros, or_zeros, zeros_or]

theorem word_withRowOf : (s.withRowOf t).word = overlay 0x7BE0 s.word (t.word &&& 0x7BE0) := by
  have hmask : ofWord 0x7BE0 = ⟨7, 1, 0, 31, 0⟩ := by decide
  have hrest : ofWord (~~~0x7BE0) = ⟨0, 0, 1, 0, 31⟩ := by decide
  rw [and_eq_word t.word (by decide), ofWord_word, hmask]
  apply word_overlay
  rw [hrest]
  simp only [zip, withRowOf, and_ones, and_zeros, or_zeros, zeros_or]

theorem word_tables (b : UInt8) :
    word { s with tableX := (Control.mk b).tableX, tableY := (Control.mk b).tableY } =
      overlay 0x0C00 s.word ((b &&& 0x03).toUInt16 <<< 10) := by
  have hrest : ofWord (~~~0x0C00) = ⟨7, 0, 0, 31, 31⟩ := by decide
  rw [tables_eq]
  apply word_overlay
  rw [hrest]
  simp only [zip, and_ones, and_zeros, or_zeros, zeros_or]

theorem word_column (b : UInt8) :
    word { s with coarseX := ⟨b.toNat / 8, by have := b.toNat_lt; omega⟩ } =
      overlay 0x001F s.word (b >>> 3).toUInt16 := by
  have hrest : ofWord (~~~0x001F) = ⟨7, 1, 1, 31, 0⟩ := by decide
  rw [columnByte_eq]
  apply word_overlay
  rw [hrest]
  simp only [zip, and_ones, and_zeros, or_zeros, zeros_or]

theorem word_row (b : UInt8) :
    word { s with
      coarseY := ⟨b.toNat / 8, by have := b.toNat_lt; omega⟩
      fineY := ⟨b.toNat % 8, Nat.mod_lt _ (by decide)⟩ } =
      overlay 0x73E0 s.word ((b &&& 0x07).toUInt16 <<< 12 ||| (b &&& 0xF8).toUInt16 <<< 2) := by
  have hrest : ofWord (~~~0x73E0) = ⟨0, 1, 1, 0, 31⟩ := by decide
  rw [rowByte_eq]
  apply word_overlay
  rw [hrest]
  simp only [zip, and_ones, and_zeros, or_zeros, zeros_or]

theorem word_high (b : UInt8) : (ofNat (b.toNat % 64 * 256 + s.toNat % 256)).word =
    overlay 0xFF00 s.word ((b &&& 0x3F).toUInt16 <<< 8) := by
  have hlow : (s.word &&& 0x00FF).toNat = s.toNat % 256 := by
    rw [UInt16.toNat_and, toNat_word]
    exact Nat.and_two_pow_sub_one_eq_mod s.toNat 8
  have hmask : ~~~(0xFF00 : UInt16) = 0x00FF := by decide
  have hor : 256 * (b.toNat % 64) + s.toNat % 256 = 256 * (b.toNat % 64) ||| s.toNat % 256 :=
    Nat.two_pow_add_eq_or_of_lt (i := 8) (Nat.mod_lt s.toNat (by decide)) (b.toNat % 64)
  rw [← UInt16.toNat_inj, toNat_word, toNat_ofNat, overlay, hmask, UInt16.toNat_or, hlow,
    highByte_eq, Nat.or_comm, ← hor]
  omega

theorem word_low (b : UInt8) : (ofNat (s.toNat / 256 * 256 + b.toNat)).word =
    overlay 0x00FF s.word b.toUInt16 := by
  have hs := s.toNat_lt
  have hb := b.toNat_lt
  have hmask : ~~~(0x00FF : UInt16) = 0xFF00 := by decide
  have hhigh : s.toNat &&& 0xFF00 = 2 ^ 8 * (s.toNat / 2 ^ 8) := by
    have hdiv : (s.toNat &&& 0xFF00) / 2 ^ 8 = s.toNat / 2 ^ 8 := by
      rw [Nat.and_div_two_pow]
      refine (Nat.and_two_pow_sub_one_eq_mod (s.toNat / 2 ^ 8) 8).trans ?_
      omega
    have hmod : (s.toNat &&& 0xFF00) % 2 ^ 8 = 0 := by
      rw [Nat.and_mod_two_pow]
      exact Nat.and_zero _
    omega
  rw [← UInt16.toNat_inj, toNat_word, toNat_ofNat, overlay, hmask, UInt16.toNat_or,
    UInt16.toNat_and, toNat_word, UInt8.toNat_toUInt16]
  change _ = s.toNat &&& 0xFF00 ||| b.toNat
  rw [hhigh, ← Nat.two_pow_add_eq_or_of_lt (i := 8) hb]
  omega

theorem word_forward {n : Nat} (hn : n < 0x8000) :
    (ofNat (s.toNat + n)).word = (s.word + .ofNat n) &&& 0x7FFF := by
  have hs := s.toNat_lt
  rw [← UInt16.toNat_inj, toNat_word, toNat_ofNat, UInt16.toNat_and, UInt16.toNat_add, toNat_word,
    UInt16.toNat_ofNat', Nat.mod_eq_of_lt (a := n) (by omega),
    Nat.mod_eq_of_lt (a := s.toNat + n) (b := 2 ^ 16) (by omega)]
  exact (Nat.and_two_pow_sub_one_eq_mod (s.toNat + n) 15).symm

end ScrollAddress
end NesConsole
