import NesConsole.Proofs.Picture.DotReads
import NesConsole.Proofs.Picture.RegisterWords
import NesConsole.Proofs.Picture.SpriteEvaluation

/-! What stays in range, whatever is done to the picture unit and whatever its bus refuses: the
words of its registers, the sprites of a line, and the addresses that its dots read. -/
namespace NesConsole

section
variable {ε κ κ' β α : Type}

theorem Keeps.onPart {P : κ' → Prop} {get : κ → κ'} {put : κ' → κ → κ}
    {x : EStateM ε (Wired κ' β) α} (h : Keeps (fun w => P w.chip) x)
    (hput : ∀ k c, get (put k c) = k) :
    Keeps (fun w => P (get w.chip)) (Wired.onPart get put x) := by
  intro w hw
  have hr := h ⟨get w.chip, w.bus⟩ hw
  dsimp only [Wired.onPart]
  cases hx : x ⟨get w.chip, w.bus⟩ <;>
    · rw [hx] at hr
      change P (get (put _ _))
      rwa [hput]

end

/-! ### The pixels of a sprite -/

structure PixelBytes where
  color : UInt8
  palette : UInt8
  deriving DecidableEq

namespace PixelBytes

/-- One bit of each plane of a row, and two bits of the attributes. -/
def decode (low high attributes bit : UInt8) : PixelBytes where
  color := ((high >>> bit) &&& 1) <<< 1 ||| (low >>> bit) &&& 1
  palette := attributes &&& 3

structure InRange (b : PixelBytes) : Prop where
  color : b.color.toNat ≤ 3
  palette : b.palette.toNat ≤ 3

theorem inRange_decode (low high attributes bit : UInt8) :
    (decode low high attributes bit).InRange := by
  have hone (b : UInt8) : (b &&& 1).toNat ≤ 1 := by
    rw [UInt8.toNat_and]
    exact Nat.and_le_right
  have htwo {b : UInt8} (hb : b.toNat ≤ 1) : (b <<< 1).toNat ≤ 2 := by
    rw [UInt8.toNat_shiftLeft, Nat.shiftLeft_eq]
    change b.toNat * 2 % 256 ≤ 2
    omega
  constructor
  · have hhigh := htwo (hone (high >>> bit))
    have hlow := hone (low >>> bit)
    dsimp only [decode]
    rw [UInt8.toNat_or]
    exact Nat.le_of_lt_succ (Nat.or_lt_two_pow (n := 2) (by omega) (by omega))
  · dsimp only [decode]
    rw [UInt8.toNat_and]
    exact Nat.and_le_right

end PixelBytes

theorem shiftRight_and_one (b : UInt8) {k : Nat} (hk : k < 8) :
    (b >>> UInt8.ofNat k) &&& 1 = UInt8.ofNat (hasBit b k).toNat := by
  have hbit := Bool.toNat_le (hasBit b k)
  rw [← UInt8.toNat_inj, UInt8.toNat_and, UInt8.toNat_shiftRight, UInt8.toNat_ofNat',
    UInt8.toNat_ofNat', Nat.mod_eq_of_lt (a := k) (by omega), Nat.mod_eq_of_lt hk,
    Nat.mod_eq_of_lt (a := (hasBit b k).toNat) (by omega), Nat.shiftRight_eq_div_pow, toNat_hasBit]
  exact Nat.and_one_is_mod _

namespace SpritePixel

def bytes (p : SpritePixel) : PixelBytes := ⟨.ofNat p.color.val, .ofNat p.palette.val⟩

def IsDecoded (p : SpritePixel) : Prop :=
  ∃ low high attributes bit, bit < 8 ∧ p.bytes = .decode low high attributes bit

theorem isDecoded_transparent : IsDecoded {} := ⟨0, 0, 0, 0, by decide, by decide⟩

theorem isDecoded_colorAt (e : SpriteEntry) (row : PatternRow) (i : Nat)
    (behindBackground spriteZero : Bool) :
    IsDecoded ⟨e.colorAt row i, e.palette, behindBackground, spriteZero⟩ := by
  generalize hbit : 7 - (if e.flipsAcross then 7 - i else i) = bit
  have hlt : bit < 8 := by omega
  have hcolor : UInt8.ofNat (e.colorAt row i).val = ((row.high >>> UInt8.ofNat bit) &&& 1) <<< 1 |||
      (row.low >>> UInt8.ofNat bit) &&& 1 := by
    have hput : ∀ high low : Bool, UInt8.ofNat (high.toNat * 2 + low.toNat) =
        UInt8.ofNat high.toNat <<< 1 ||| UInt8.ofNat low.toNat := by decide
    rw [shiftRight_and_one _ hlt, shiftRight_and_one _ hlt, ← hput, ← hbit]
    rfl
  have hpalette : UInt8.ofNat e.palette.val = e.attributes &&& 3 := by
    have hmod : e.palette.val = e.attributes.toNat % 4 := rfl
    rw [← UInt8.toNat_inj, hmod, UInt8.toNat_ofNat', Nat.mod_eq_of_lt (by omega), UInt8.toNat_and]
    exact (Nat.and_two_pow_sub_one_eq_mod _ 2).symm
  refine ⟨row.low, row.high, e.attributes, .ofNat bit, ?_, ?_⟩
  · rwa [UInt8.lt_iff_toNat_lt, UInt8.toNat_ofNat', Nat.mod_eq_of_lt (by omega)]
  · rw [bytes, PixelBytes.decode, hcolor, hpalette]

theorem IsDecoded.inRange {p : SpritePixel} (h : p.IsDecoded) : p.bytes.InRange := by
  obtain ⟨low, high, attributes, bit, -, hbytes⟩ := h
  rw [hbytes]
  exact PixelBytes.inRange_decode low high attributes bit

end SpritePixel

/-! ### The sprites of a line -/

namespace SpriteLine

structure Within (n : Nat) (line : SpriteLine) : Prop where
  count : line.count ≤ n
  pixels (x : Nat) (hx : x < 256) : line.pixels[x].IsDecoded

namespace Within
variable {n : Nat} {line : SpriteLine}

theorem empty : Within n empty := by
  refine ⟨Nat.zero_le n, fun x hx => ?_⟩
  have hblank : SpriteLine.empty.pixels[x] = {} := Vector.getElem_replicate hx
  rw [hblank]
  exact SpritePixel.isDecoded_transparent

theorem paintPixel (h : line.Within n) (x : Nat) {p : SpritePixel} (hp : p.IsDecoded) :
    (line.paintPixel x p).Within n := by
  refine ⟨by rw [count_paintPixel]; exact h.count, fun k hk => ?_⟩
  unfold SpriteLine.paintPixel
  split
  · split
    · exact h.pixels k hk
    · dsimp only
      rw [Vector.getElem_set]
      split
      · exact hp
      · exact h.pixels k hk
  · exact h.pixels k hk

theorem paint (h : line.Within n) (i : Fin 64) (e : SpriteEntry) (row : PatternRow) :
    (line.paint i e row).Within n := by
  unfold SpriteLine.paint
  induction List.range 8 generalizing line with
  | nil => exact h
  | cons column columns ih =>
    exact ih (h.paintPixel _ (SpritePixel.isDecoded_colorAt e row column _ _))

end Within

variable {β : Type} [Bus β] (oam : ObjectMemory) (scanline height : Nat) (table : UInt16)

/-- One more is counted, also where its patterns are refused. -/
theorem goes_draw (i : Fin 64) (n : Nat) : Goes (fun w : Wired SpriteLine β => w.chip.Within n)
    (draw oam scanline height table i) fun w => w.chip.Within (n + 1) := by
  have hpattern (address : Nat) : Keeps (fun w => w.chip.Within (n + 1))
      (readPattern address : EStateM BusError (Wired SpriteLine β) UInt8) :=
    (KeepsView.ite (.read _) (.throw _) : KeepsView id _).keeps
  refine Leads.bind (M := fun _ w => w.chip.Within (n + 1))
    (fun _ hw => ⟨Nat.succ_le_succ hw.count, hw.pixels⟩) fun _ => ?_
  exact Keeps.bind (hpattern _) fun _ => Keeps.bind (hpattern _) fun _ _ hw => hw.paint _ _ _

theorem goes_draws (l : List (Fin 64)) (n : Nat) :
    Goes (fun w : Wired SpriteLine β => w.chip.Within n) (l.forM (draw oam scanline height table))
      fun w => w.chip.Within (n + l.length) := by
  induction l generalizing n with
  | nil => exact fun _ hw => hw
  | cons i l ih =>
    have hlength : n + 1 + l.length = n + (i :: l).length := by
      rw [List.length_cons]
      omega
    refine ((goes_draw oam scanline height table i n).mono (fun _ hw => hw) (fun _ _ hw => hw)
      fun _ _ hw => ⟨Nat.le_trans hw.count ?_, hw.pixels⟩).bind fun _ => hlength ▸ ih (n + 1)
    rw [List.length_cons]
    omega

/-- Whatever was selected before, and wherever the evaluation is refused. -/
theorem keeps_evaluate : Keeps (fun w : Wired SpriteLine β => w.chip.Within 8)
    (evaluate oam scanline height table) := by
  have hdraws : Goes (fun w : Wired SpriteLine β => w.chip.Within 0)
      (((covering oam scanline height).take 8).forM (draw oam scanline height table))
      fun w => w.chip.Within 8 := by
    have hlength := List.length_take_le 8 (covering oam scanline height)
    have hle {w : Wired SpriteLine β}
        (hw : w.chip.Within (0 + ((covering oam scanline height).take 8).length)) :
        w.chip.Within 8 := ⟨Nat.le_trans hw.count (by omega), hw.pixels⟩
    -- No sprite is counted at first, so that the bound is the number of those drawn.
    exact (goes_draws oam scanline height table _ 0).mono (fun _ hw => hw)
      (fun _ _ hw => hle hw) fun _ _ hw => hle hw
  have hrest : Keeps (fun w : Wired SpriteLine β => w.chip.Within 8)
      (Wired.update (fun _ => empty) >>= fun _ =>
        ((covering oam scanline height).take 8).forM (draw oam scanline height table) >>= fun _ =>
          pure (decide (8 < (covering oam scanline height).length))) :=
    Leads.bind (M := fun _ w => w.chip.Within 0) (fun _ _ => .empty) fun _ =>
      hdraws.bind fun _ _ hw => hw
  exact Leads.ite hrest (Leads.bind (M := fun _ w => w.chip.Within 8) (fun _ hw => hw)
    fun _ => hrest)

end SpriteLine

namespace Ppu
section
variable {β : Type} [Bus β]

theorem keepsSprites_prepareSprites : Keeps (fun w => w.chip.sprites.Within 8)
    (prepareSprites : EStateM BusError (Wired Ppu β) Unit) := by
  refine .bind (fun _ hw => hw) fun rendering => Leads.ite ?_ fun _ _ => .empty
  refine Keeps.bind (fun _ hw => hw) fun p => Keeps.bind (.onPart (P := SpriteLine.Within 8)
    (SpriteLine.keeps_evaluate _ _ _ _) fun _ _ => rfl) fun overflow => ?_
  exact Leads.ite (fun _ hw => hw) fun _ hw => hw

theorem keepsSprites_step : Keeps (fun w => w.chip.sprites.Within 8)
    (step : EStateM BusError (Wired Ppu β) Tick) := by
  have hkeeps {α : Type} {x : EStateM BusError (Wired Ppu β) α} (hx : KeepsView (·.sprites) x) :
      Keeps (fun w => w.chip.sprites.Within 8) x := hx.keeps (P := SpriteLine.Within 8)
  rw [step_stages]
  have hbegin (p : Ppu) : (beginDot p).sprites = p.sprites := p.beginDot_leaves.2.2.1
  refine .bind (hkeeps (.look _)) fun tick => .bind (hkeeps (.update hbegin)) fun _ => ?_
  refine .bind (hkeeps (.look _)) fun rendering => .bind (hkeeps (.look _)) fun beam => ?_
  refine .bind ?stages fun _ => hkeeps (.bind (.update fun p => ?advance) fun _ => .pure _)
  case stages =>
    refine .bind (Leads.ite keepsSprites_prepareSprites fun _ hw => hw) fun _ => hkeeps ?_
    refine .bind (.ite (keepsView_fetchBackground fun _ _ _ => rfl) (.pure _)) fun _ => ?_
    refine .bind (keepsView_renderPixel (fun _ => rfl) fun _ _ _ => rfl) fun _ => ?_
    exact .ite (.update fun _ => rfl) (.pure _)
  case advance => exact (p.advance_leaves rendering).2.1

/-- No act counts a ninth sprite or leaves a pixel that is not decoded. -/
theorem sprites_after (a : Act β) {w : Wired Ppu β} (h : w.chip.sprites.Within 8) :
    (a.after w).chip.sprites.Within 8 := by
  cases a with
  | dot => exact finish_of_goes keepsSprites_step h
  | read address =>
    have hread : KeepsView (·.sprites)
        (readRegister address : EStateM BusError (Wired Ppu β) UInt8) :=
      keepsView_readRegister (fun _ _ => rfl) (fun _ _ => rfl) fun _ _ => rfl
    exact finish_of_goes (hread.keeps (P := SpriteLine.Within 8)) h
  | write address byte =>
    have hwrite := (keepsView_writeRegister (β := β) address byte).map fun v => v.2.1
    exact finish_of_goes (hwrite.keeps (P := SpriteLine.Within 8)) h
  | objects block =>
    have hsprites : (w.chip.writeObjects block).sprites = w.chip.sprites := by
      simp only [writeObjects]
    change (w.chip.writeObjects block).sprites.Within 8
    rwa [hsprites]
  | reset => exact .empty
  | rewire bus => exact h

/-! ### All that was tried -/

/-- The registers and the sprites of a unit are in their ranges, the pixels of the line because
their bytes are decoded from patterns and attributes. -/
structure InRange (p : Ppu) : Prop where
  words : p.words.InRange
  count : p.sprites.count ≤ 8
  pixels (x : Nat) (hx : x < 256) :
    p.sprites.pixels[x].IsDecoded ∧ p.sprites.pixels[x].bytes.InRange

theorem Tried.words_inRange {past : List (Deed β)} {w : Wired Ppu β} (h : Tried past w) :
    w.chip.words.InRange := by
  induction h with
  | powerUp bus => exact words_powerUp ▸ .powerUp
  | act a h ih =>
    obtain ⟨done, -, hwords⟩ := partway_after a _
    rw [hwords]
    exact ih.run done

theorem Tried.sprites_within {past : List (Deed β)} {w : Wired Ppu β} (h : Tried past w) :
    w.chip.sprites.Within 8 := by
  induction h with
  | powerUp bus => exact .empty
  | act a h ih => exact sprites_after a ih

/-- Whatever was tried since power-up, the registers and the sprites are in their ranges, and each
act makes the moves of its words in turn, as far as it is not refused. The next dot only reads: the
patterns of sprites, the name, the attributes and the pattern of one tile, and one palette cell,
each in its part of the address space. -/
theorem tried_in_range {past : List (Deed β)} {w : Wired Ppu β} (h : Tried past w) :
    w.chip.InRange ∧
    (∀ a : Act β,
      if a.isRefused w then w.chip.words.Partway (a.moves w.chip) (a.after w).chip.words
      else (a.after w).chip.words = w.chip.words.run (a.moves w.chip)) ∧
    Alike (SameChip Observed.Erases) (step (⟨w.chip, ⟨w.bus, []⟩⟩ : Wired Ppu (Observed β)))
      (step w) ∧
    ∃ l, dotUses w = l.map .read ∧ DotReads w.chip.mask.rendering l ∧
      ∀ a ∈ l, a.toNat < 0x4000 := by
  obtain ⟨l, huses, hreads⟩ := exists_dotReads w
  refine ⟨⟨h.words_inRange, h.sprites_within.count, fun x hx => ?_⟩, fun a => words_after a w,
    agree_dot _ _ ⟨rfl, rfl⟩, l, huses, hreads, hreads.lt⟩
  have hdecoded := h.sprites_within.pixels x hx
  exact ⟨hdecoded, hdecoded.inRange⟩

end

def bare : FlatMemory 0x400 := { FlatMemory.blank with holes := [(0x3C0, 0x3FF)] }

/-- Both layers are turned on before the first dot, which is refused in the middle of its tile, and
so is the next one. -/
theorem tried_in_range_refused : ∃ (past : List (Deed (FlatMemory 0x400)))
    (w : Wired Ppu (FlatMemory 0x400)), Tried past w ∧ past.length = 2 ∧ w.chip.InRange ∧
      Act.isRefused .dot w = true ∧
      w.chip.words.Partway [.column, .beam false] (Act.after .dot w).chip.words ∧
      dotUses w = [.read 0x2000, .read 0x23C0] ∧
      ∃ l, dotUses w = l.map .read ∧ DotReads w.chip.mask.rendering l := by
  have h := ((Tried.powerUp bare).act (.write 0x2001 0x18)).act .dot
  obtain ⟨hrange, hmoves, -, l, huses, hreads, -⟩ := tried_in_range h
  exact ⟨_, _, h, rfl, hrange, by decide, hmoves .dot, by decide, l, huses, hreads⟩

end Ppu
end NesConsole
