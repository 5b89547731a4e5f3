import Mathlib.Data.Nat.Bitwise
import NesConsole.Proofs.Picture.Screen
import NesConsole.Proofs.Picture.SpriteRow

/-! The evaluation of a line's sprites and its rules, entry by entry: which entries are on the line,
which of them are kept, what each shows in a column, and which of them the column takes. -/
namespace NesConsole

structure SpriteBand where
  oam : ObjectMemory
  scanline : Nat
  height : Nat
  table : UInt16
  /-- The memory that the patterns are in. -/
  vram : FlatMemory 0x4000

namespace SpriteBand
variable (s : SpriteBand)

def mem (address : UInt16) : UInt8 := s.vram.get address.toNat

/-! ### Rules -/

/-- How far the line is below the first row of entry `i`, which follows the line of its `y`. -/
def depth (i : Fin 64) : Int := (s.scanline : Int) - 1 - (s.oam.entry i).y.toNat

def Covers (i : Fin 64) : Prop := 0 ≤ s.depth i ∧ s.depth i < s.height

instance (i : Fin 64) : Decidable (s.Covers i) := inferInstanceAs (Decidable (_ ∧ _))

def number : Nat := (List.finRange 64).countP fun i => s.Covers i

def ahead (i : Fin 64) : Nat := (List.finRange 64).countP fun j => j < i ∧ s.Covers j

def Keeps (i : Fin 64) : Prop := s.Covers i ∧ s.ahead i < 8

/-- The row of the sprite on the line. A sprite that is flipped down is turned over as a whole. -/
def row (i : Fin 64) : Nat :=
  let depth := (s.depth i).toNat
  if (s.oam.entry i).attributes &&& 0x80 = 0 then depth else s.height - 1 - depth

/-- Where the low plane of that row stands. The two tiles of a tall sprite are in the table that the
lowest bit of its tile names. -/
def address (i : Fin 64) : Nat :=
  let tile := (s.oam.entry i).tile
  if s.height = 16 then
    let table := (tile &&& 0x01).toNat * 0x1000
    let top := (tile &&& 0xFE).toNat
    if s.row i < 8 then table + top * 16 + s.row i else table + (top + 1) * 16 + (s.row i - 8)
  else s.table.toNat + tile.toNat * 16 + s.row i

/-- The color of entry `i` in one of its eight columns. The leftmost is in the highest bits of both
planes, and in the lowest ones of a sprite that is flipped across. -/
def color (i : Fin 64) (column : Nat) : Nat :=
  let place := if (s.oam.entry i).attributes &&& 0x40 = 0 then 7 - column else column
  let low := s.mem (UInt16.ofNat (s.address i))
  let high := s.mem (UInt16.ofNat (s.address i + 8))
  2 * (high.toNat / 2 ^ place % 2) + low.toNat / 2 ^ place % 2

def column (i : Fin 64) (x : Nat) : Nat := x - (s.oam.entry i).x.toNat

def Paints (x : Nat) (i : Fin 64) : Prop :=
  s.Keeps i ∧ (s.oam.entry i).x.toNat ≤ x ∧ s.column i x < 8 ∧ s.color i (s.column i x) ≠ 0

structure IsPixel (x : Nat) (i : Fin 64) (p : SpritePixel) : Prop where
  color : p.color.val = s.color i (s.column i x)
  palette : p.palette.val = ((s.oam.entry i).attributes &&& 0x03).toNat
  behind : p.behindBackground = true ↔ (s.oam.entry i).attributes &&& 0x20 ≠ 0
  first : p.spriteZero = true ↔ i = 0

/-- What column `x` shows: the first entry that paints it, and nothing where none does. -/
def Shows (x : Nat) (p : SpritePixel) : Prop :=
  (∃ i, s.Paints x i ∧ (∀ j < i, ¬s.Paints x j) ∧ s.IsPixel x i p) ∨
    (∀ i, ¬s.Paints x i) ∧ p = {}

end SpriteBand

/-! ### Bits of a byte -/

theorem toNat_and_bit (b : UInt8) {k : Nat} (hk : k < 8) :
    (b &&& UInt8.ofNat (2 ^ k)).toNat = (hasBit b k).toNat * 2 ^ k := by
  have hlt : 2 ^ k < 2 ^ 8 := Nat.pow_lt_pow_right (Nat.lt_succ_self 1) hk
  rw [UInt8.toNat_and, UInt8.toNat_ofNat_of_lt' hlt, Nat.and_two_pow, hasBit]

theorem and_bit_eq_zero (b : UInt8) {k : Nat} (hk : k < 8) :
    b &&& UInt8.ofNat (2 ^ k) = 0 ↔ hasBit b k = false := by
  rw [← UInt8.toNat_inj, toNat_and_bit b hk]
  cases hasBit b k <;> simp

theorem toNat_and_even (b : UInt8) : (b &&& 0xFE).toNat = b.toNat / 2 * 2 := by
  have h : ∀ n : Fin 256, n.val &&& 0xFE = n.val / 2 * 2 := by decide +kernel
  exact h ⟨b.toNat, b.toNat_lt⟩

theorem toNat_hasBit (b : UInt8) (k : Nat) : (hasBit b k).toNat = b.toNat / 2 ^ k % 2 :=
  Nat.toNat_testBit _ _

/-! ### Lists in order -/

section
variable {n : Nat} {l : List (Fin n)}

/-- The first `k` of a list in order are those with fewer than `k` before them. -/
theorem mem_take_iff (hl : l.Pairwise (· < ·)) (k : Nat) (i : Fin n) :
    i ∈ l.take k ↔ i ∈ l ∧ l.countP (· < i) < k := by
  induction l generalizing k with
  | nil => simp
  | cons a l ih =>
    obtain ⟨hfirst, hrest⟩ := List.pairwise_cons.1 hl
    cases k with
    | zero => simp
    | succ k =>
      rw [List.take_succ_cons, List.mem_cons, List.mem_cons, List.countP_cons, ih hrest]
      by_cases hia : i = a
      · subst hia
        have hnone : l.countP (· < i) = 0 :=
          List.countP_eq_zero.2 fun j hj => by simpa using Fin.le_of_lt (hfirst j hj)
        simp [hnone]
      · simp only [hia, false_or]
        refine and_congr_right fun hi => ?_
        rw [if_pos (decide_eq_true (hfirst i hi))]
        omega

/-- What is found in a list in order is the least that fits. -/
theorem least_of_find? {p : Fin n → Bool} (hl : l.Pairwise (· < ·)) {i : Fin n}
    (h : l.find? p = some i) : i ∈ l ∧ p i = true ∧ ∀ j ∈ l, j < i → p j = false := by
  induction l with
  | nil => cases h
  | cons a l ih =>
    obtain ⟨hfirst, hrest⟩ := List.pairwise_cons.1 hl
    rw [List.find?_cons] at h
    cases ha : p a with
    | true =>
      rw [ha] at h
      obtain rfl : a = i := Option.some.inj h
      refine ⟨List.mem_cons_self, ha, fun j hj hlt => ?_⟩
      rcases List.mem_cons.1 hj with rfl | hj
      · exact absurd hlt (Fin.lt_irrefl j)
      · exact absurd hlt (Fin.lt_asymm (hfirst j hj))
    | false =>
      rw [ha] at h
      obtain ⟨hi, hp, hleast⟩ := ih hrest h
      refine ⟨List.mem_cons_of_mem a hi, hp, fun j hj hlt => ?_⟩
      rcases List.mem_cons.1 hj with rfl | hj
      · exact ha
      · exact hleast j hj hlt

end

namespace SpriteBand
variable (s : SpriteBand)

/-! ### Selection -/

theorem covers_entry (i : Fin 64) :
    (s.oam.entry i).covers s.scanline s.height = decide (s.Covers i) := by
  rw [SpriteEntry.covers, ← Bool.decide_and]
  refine decide_eq_decide.2 ?_
  rw [Covers, depth]
  omega

theorem covering_eq : SpriteLine.covering s.oam s.scanline s.height =
    (List.finRange 64).filter fun i => s.Covers i :=
  List.filter_congr fun i _ => s.covers_entry i

theorem length_covering : (SpriteLine.covering s.oam s.scanline s.height).length = s.number := by
  rw [covering_eq, number, List.countP_eq_length_filter]

def kept : List (Fin 64) := (SpriteLine.covering s.oam s.scanline s.height).take 8

theorem length_kept : s.kept.length = min 8 s.number := by
  rw [kept, List.length_take, length_covering]

theorem pairwise_covering :
    (SpriteLine.covering s.oam s.scanline s.height).Pairwise (· < ·) :=
  (List.pairwise_lt_finRange 64).filter _

theorem pairwise_kept : s.kept.Pairwise (· < ·) :=
  s.pairwise_covering.sublist (List.take_sublist 8 _)

theorem mem_kept (i : Fin 64) : i ∈ s.kept ↔ s.Keeps i := by
  rw [kept, mem_take_iff s.pairwise_covering, covering_eq, List.countP_filter, List.mem_filter]
  simp [Keeps, ahead, List.mem_finRange]

/-! ### Pixels -/

section
variable {s} {i : Fin 64}

theorem row_eq (i : Fin 64) : s.row i =
    if (s.oam.entry i).flipsDown then s.height - 1 - (s.scanline - 1 - (s.oam.entry i).y.toNat)
    else s.scanline - 1 - (s.oam.entry i).y.toNat := by
  have hflip : (s.oam.entry i).attributes &&& 0x80 = 0 ↔ (s.oam.entry i).flipsDown = false :=
    and_bit_eq_zero _ (k := 7) (by decide)
  have hdepth : (s.depth i).toNat = s.scanline - 1 - (s.oam.entry i).y.toNat := by
    rw [depth]
    omega
  rw [row, hdepth]
  cases hdown : (s.oam.entry i).flipsDown with
  | true => rw [if_neg (by simp [hflip, hdown]), if_pos rfl]
  | false => rw [if_pos (hflip.2 hdown), if_neg Bool.false_ne_true]

theorem row_lt (hi : s.Covers i) : s.row i < s.height := by
  rw [Covers, depth] at hi
  rw [row_eq]
  split <;> omega

theorem address_eq (hi : s.Covers i) :
    s.address i = (s.oam.entry i).patternAddress s.scanline s.height s.table := by
  have hrow := row_lt hi
  have hbit : ((s.oam.entry i).tile &&& 0x01).toNat = (s.oam.entry i).tile.toNat % 2 := by
    rw [UInt8.toNat_and]
    exact Nat.and_one_is_mod _
  rw [SpriteEntry.patternAddress, address, ← row_eq, hbit, toNat_and_even]
  dsimp only
  split
  · split <;> omega
  · rfl

theorem color_eq (e : SpriteEntry) (row : PatternRow) {column : Nat} (h : column < 8) :
    (e.colorAt row column).val =
      let place := if e.attributes &&& 0x40 = 0 then 7 - column else column
      2 * (row.high.toNat / 2 ^ place % 2) + row.low.toNat / 2 ^ place % 2 := by
  have hflip : e.attributes &&& 0x40 = 0 ↔ e.flipsAcross = false :=
    and_bit_eq_zero _ (k := 6) (by decide)
  have hplace : 7 - (if e.flipsAcross then 7 - column else column) =
      if e.attributes &&& 0x40 = 0 then 7 - column else column := by
    cases hacross : e.flipsAcross with
    | true =>
      rw [if_pos rfl, if_neg (by simp [hflip, hacross])]
      omega
    | false => rw [if_neg Bool.false_ne_true, if_pos (hflip.2 hacross)]
  change (hasBit row.high (7 - _)).toNat * 2 + (hasBit row.low (7 - _)).toNat = _
  rw [hplace, toNat_hasBit, toNat_hasBit, Nat.mul_comm]

def decoded (s : SpriteBand) (i : Fin 64) : PatternRow :=
  s.oam.rowFrom s.mem s.scanline s.height s.table i

def pixel (s : SpriteBand) (x : Nat) (i : Fin 64) : SpritePixel :=
  (s.oam.entry i).pixelAt i (s.decoded i) x

theorem color_decoded (hi : s.Covers i) {column : Nat} (hcolumn : column < 8) :
    ((s.oam.entry i).colorAt (s.decoded i) column).val = s.color i column := by
  rw [color_eq _ _ hcolumn, color, address_eq hi]
  rfl

theorem pixel_of_column {x : Nat} (hleft : (s.oam.entry i).x.toNat ≤ x)
    (hright : s.column i x < 8) : s.pixel x i =
      { color := (s.oam.entry i).colorAt (s.decoded i) (s.column i x)
        palette := (s.oam.entry i).palette
        behindBackground := (s.oam.entry i).behindBackground
        spriteZero := i == 0 } := by
  rw [column] at hright
  exact if_pos ⟨hleft, by omega⟩

theorem isOpaque_pixel {x : Nat} (hi : s.Keeps i) :
    (s.pixel x i).isOpaque = true ↔ s.Paints x i := by
  by_cases hcolumn : (s.oam.entry i).x.toNat ≤ x ∧ s.column i x < 8
  · have hcolor := color_decoded hi.1 hcolumn.2
    rw [pixel_of_column hcolumn.1 hcolumn.2, SpritePixel.isOpaque, bne_iff_ne, Ne, Fin.ext_iff,
      hcolor]
    exact ⟨fun h => ⟨hi, hcolumn.1, hcolumn.2, h⟩, fun h => h.2.2.2⟩
  · have hblank : s.pixel x i = {} := if_neg fun h => hcolumn ⟨h.1, by rw [column]; omega⟩
    rw [hblank]
    exact ⟨nofun, fun h => absurd ⟨h.2.1, h.2.2.1⟩ hcolumn⟩

theorem isPixel {x : Nat} (h : s.Paints x i) : s.IsPixel x i (s.pixel x i) := by
  obtain ⟨hi, hleft, hright, -⟩ := h
  have hbehind : (s.oam.entry i).attributes &&& 0x20 = 0 ↔
      (s.oam.entry i).behindBackground = false := and_bit_eq_zero _ (k := 5) (by decide)
  rw [pixel_of_column hleft hright]
  refine ⟨color_decoded hi.1 hright, ?_, ?_, ?_⟩
  · rw [UInt8.toNat_and]
    exact (Nat.and_two_pow_sub_one_eq_mod _ 2).symm
  · rw [Ne, hbehind, Bool.not_eq_false]
  · exact beq_iff_eq

end

/-! ### Columns -/

theorem shows_spriteColumn (x : Nat) :
    s.Shows x (spriteColumn s.mem s.oam s.scanline s.height s.table x) := by
  have hcolumn : spriteColumn s.mem s.oam s.scanline s.height s.table x =
      ((s.kept.find? fun i => (s.pixel x i).isOpaque).map (s.pixel x)).getD {} := by
    rw [spriteColumn, List.find?_map]
    rfl
  have hpainting {i : Fin 64} (h : s.Paints x i) : i ∈ s.kept ∧ (s.pixel x i).isOpaque = true :=
    ⟨(s.mem_kept i).2 h.1, (isOpaque_pixel h.1).2 h⟩
  rw [hcolumn]
  cases hfound : s.kept.find? fun i => (s.pixel x i).isOpaque with
  | none =>
    refine .inr ⟨fun i hi => ?_, rfl⟩
    obtain ⟨hkept, hopaque⟩ := hpainting hi
    exact List.find?_eq_none.1 hfound i hkept hopaque
  | some i =>
    obtain ⟨hkept, hopaque, hleast⟩ := least_of_find? s.pairwise_kept hfound
    have hi : s.Paints x i := (isOpaque_pixel ((s.mem_kept i).1 hkept)).1 hopaque
    refine .inl ⟨i, hi, fun j hlt hj => ?_, isPixel hi⟩
    obtain ⟨hkept', hopaque'⟩ := hpainting hj
    rw [hleast j hkept' hlt] at hopaque'
    cases hopaque'

end SpriteBand

/-! ### Evaluation -/

namespace SpriteLine

theorem count_paintPixel (x : Nat) (p : SpritePixel) (line : SpriteLine) :
    (line.paintPixel x p).count = line.count := by
  unfold paintPixel
  split
  · split <;> rfl
  · rfl

theorem count_paint (i : Fin 64) (e : SpriteEntry) (row : PatternRow) (line : SpriteLine) :
    (line.paint i e row).count = line.count := by
  unfold paint
  induction List.range 8 generalizing line with
  | nil => rfl
  | cons column columns ih => rw [List.foldl_cons, ih, count_paintPixel]

theorem count_spritesFrom (s : SpriteBand) :
    (Ppu.spritesFrom s.mem s.oam s.scanline s.height s.table).count = min 8 s.number := by
  have hfold (l : List (Fin 64)) (line : SpriteLine) :
      (l.foldl (Ppu.drawFrom s.mem s.oam s.scanline s.height s.table) line).count =
        line.count + l.length := by
    induction l generalizing line with
    | nil => rfl
    | cons i l ih =>
      rw [List.foldl_cons, ih, Ppu.drawFrom, count_paint, List.length_cons]
      exact Nat.succ_add_eq_add_succ _ _
  rw [← s.length_kept]
  exact (hfold s.kept .empty).trans (Nat.zero_add _)

/-- Over a flat memory without holes the sprites of a visible line are decoded by the rules of
their entries, whatever was decoded before. The answer is whether more than eight are on it. -/
theorem evaluate_band (s : SpriteBand) (before : SpriteLine) (hline : s.scanline < 240)
    (hheight : s.height = 8 ∨ s.height = 16) (htable : s.table = 0x0000 ∨ s.table = 0x1000)
    (hholes : s.vram.holes = []) :
    ∃ line m, evaluate s.oam s.scanline s.height s.table ⟨before, s.vram⟩ =
        .ok (decide (9 ≤ s.number)) ⟨line, m⟩ ∧ m.cells = s.vram.cells ∧
      line.count = min 8 s.number ∧ ∀ x, (hx : x < 256) → s.Shows x line.pixels[x] := by
  obtain ⟨c, hc, hc'⟩ : ∃ c : Control, c.spriteHeight = s.height ∧ c.spriteTable = s.table := by
    rcases hheight with hheight | hheight <;> rcases htable with htable | htable <;>
      rw [hheight, htable]
    · exact ⟨⟨0x00⟩, rfl, rfl⟩
    · exact ⟨⟨0x08⟩, rfl, rfl⟩
    · exact ⟨⟨0x20⟩, rfl, rfl⟩
    · exact ⟨⟨0x28⟩, rfl, rfl⟩
  obtain ⟨m, hok, -, hcells⟩ := Ppu.does_evaluate s.vram.steady s.oam ⟨s.scanline, by omega⟩ c
    before s.vram ⟨hholes, rfl⟩
  rw [hc, hc', s.length_covering] at hok
  refine ⟨_, m, hok, hcells, count_spritesFrom s, fun x hx => ?_⟩
  have hpixel := pixels_spritesFrom s.mem s.oam s.scanline s.height s.table x hx
  exact hpixel ▸ s.shows_spriteColumn x

/-- All 64 entries are at one place, and all their colors are set. -/
def pile : SpriteBand where
  oam := .replicate 256 9
  scanline := 10
  height := 8
  table := 0x1000
  vram := { cells := .replicate 0x4000 0xFF }

theorem entry_pile (i : Fin 64) : pile.oam.entry i = ⟨9, 9, 9, 9⟩ := by
  simp [pile, ObjectMemory.entry]

theorem mem_pile (address : UInt16) : pile.mem address = 0xFF := by
  simp [pile, SpriteBand.mem, FlatMemory.get, Nat.mod_lt]

theorem covers_pile (i : Fin 64) : pile.Covers i := by
  rw [SpriteBand.Covers, SpriteBand.depth, entry_pile]
  decide

theorem number_pile : pile.number = 64 :=
  List.countP_eq_length.2 fun i _ => decide_eq_true (covers_pile i)

theorem paints_pile : pile.Paints 9 0 := by
  have hahead : pile.ahead 0 = 0 := List.countP_eq_zero.2 fun j _ => by simp
  refine ⟨⟨covers_pile 0, hahead ▸ Nat.zero_lt_succ 7⟩, ?_⟩
  rw [SpriteBand.column, SpriteBand.color, mem_pile, mem_pile, entry_pile]
  decide

theorem evaluate_band_pile : pile.scanline < 240 ∧ (pile.height = 8 ∨ pile.height = 16) ∧
    (pile.table = 0x0000 ∨ pile.table = 0x1000) ∧ pile.vram.holes = [] ∧
    ∃ line m, evaluate pile.oam 10 8 0x1000 ⟨.empty, pile.vram⟩ = .ok true ⟨line, m⟩ ∧
      line.count = 8 ∧ line.pixels[9].spriteZero = true ∧ line.pixels[17] = {} := by
  obtain ⟨line, m, hok, -, hcount, hshows⟩ :=
    evaluate_band pile .empty (by decide) (.inl rfl) (.inr rfl) rfl
  rw [number_pile] at hok hcount
  refine ⟨by decide, .inl rfl, .inr rfl, rfl, line, m, hok, hcount, ?_, ?_⟩
  · rcases hshows 9 (by decide) with ⟨i, hi, hleast, hpixel⟩ | ⟨hnone, -⟩
    · refine hpixel.first.2 (Decidable.byContradiction fun hne => ?_)
      exact hleast 0 (Fin.pos_iff_ne_zero.2 hne) paints_pile
    · exact absurd paints_pile (hnone 0)
  · rcases hshows 17 (by decide) with ⟨i, ⟨-, -, hcolumn, -⟩, -⟩ | ⟨-, hblank⟩
    · rw [SpriteBand.column, entry_pile] at hcolumn
      exact absurd hcolumn (by decide)
    · exact hblank

end SpriteLine
end NesConsole
