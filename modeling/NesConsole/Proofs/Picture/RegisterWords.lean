import NesConsole.Proofs.Picture.Beat
import NesConsole.Proofs.Picture.ScrollWords

/-! The beam and the scroll registers as the machine words that hold them, and what is done to the
words. Whatever is done to the picture unit, refused or not, its words make moves of a fixed list,
and no move takes a word out of its range. -/
namespace NesConsole
open ScrollWord

structure PictureWords where
  scanline : UInt16 := 261
  dot : UInt16 := 0
  v : UInt16 := 0
  t : UInt16 := 0
  fineX : UInt8 := 0
  deriving DecidableEq, Repr

inductive WordMove where
  /-- The next dot, which may come early on an odd frame. -/
  | beam (mayskip : Bool)
  | column
  | row
  | copyColumn
  | copyRow
  | forward (step : UInt16)
  | tables (byte : UInt8)
  | scrollColumn (byte : UInt8)
  | scrollRow (byte : UInt8)
  | high (byte : UInt8)
  | low (byte : UInt8)
  | reset
  deriving DecidableEq, Repr

namespace WordMove

def apply : WordMove → PictureWords → PictureWords
  | beam mayskip, x =>
    if mayskip && x.scanline == 261 && x.dot == 339 then { x with scanline := 0, dot := 0 }
    else if x.dot + 1 = 341 then
      { x with dot := 0, scanline := if x.scanline + 1 = 262 then 0 else x.scanline + 1 }
    else { x with dot := x.dot + 1 }
  | column, x => { x with v := columnUp x.v }
  | row, x => { x with v := rowUp x.v }
  | copyColumn, x => { x with v := overlay 0x041F x.v (x.t &&& 0x041F) }
  | copyRow, x => { x with v := overlay 0x7BE0 x.v (x.t &&& 0x7BE0) }
  | forward step, x => { x with v := (x.v + step) &&& 0x7FFF }
  | tables byte, x => { x with t := overlay 0x0C00 x.t ((byte &&& 0x03).toUInt16 <<< 10) }
  | scrollColumn byte, x =>
    { x with t := overlay 0x001F x.t (byte >>> 3).toUInt16, fineX := byte &&& 0x07 }
  | scrollRow byte, x =>
    let bits := (byte &&& 0x07).toUInt16 <<< 12 ||| (byte &&& 0xF8).toUInt16 <<< 2
    { x with t := overlay 0x73E0 x.t bits }
  | high byte, x => { x with t := overlay 0xFF00 x.t ((byte &&& 0x3F).toUInt16 <<< 8) }
  | low byte, x =>
    let t := overlay 0x00FF x.t byte.toUInt16
    { x with t := t, v := t }
  | reset, _ => {}

end WordMove

namespace PictureWords

def run (x : PictureWords) (moves : List WordMove) : PictureWords :=
  moves.foldl (fun x move => move.apply x) x

def Partway (x : PictureWords) (moves : List WordMove) (y : PictureWords) : Prop :=
  ∃ done, done <+: moves ∧ y = x.run done

theorem Partway.still {x y : PictureWords} {moves : List WordMove} (h : y = x) :
    x.Partway moves y := ⟨[], List.nil_prefix, h⟩

theorem Partway.of_eq {x y : PictureWords} {moves : List WordMove} (h : y = x.run moves) :
    x.Partway moves y := ⟨moves, List.prefix_rfl, h⟩

theorem Partway.append {x y : PictureWords} {moves : List WordMove} (h : x.Partway moves y)
    (moves' : List WordMove) : x.Partway (moves ++ moves') y := by
  obtain ⟨done, hdone, hy⟩ := h
  exact ⟨done, hdone.trans (List.prefix_append moves moves'), hy⟩

theorem run_append (x : PictureWords) (moves moves' : List WordMove) :
    x.run (moves ++ moves') = (x.run moves).run moves' := List.foldl_append

structure InRange (x : PictureWords) : Prop where
  scanline : x.scanline.toNat ≤ 261
  dot : x.dot.toNat ≤ 340
  v : x.v.toNat ≤ 0x7FFF
  t : x.t.toNat ≤ 0x7FFF
  fineX : x.fineX.toNat ≤ 7

namespace InRange
variable {x : PictureWords}

theorem powerUp : InRange {} := ⟨by decide, by decide, by decide, by decide, by decide⟩

theorem beam (h : x.InRange) (mayskip : Bool) : ((WordMove.beam mayskip).apply x).InRange := by
  obtain ⟨hscanline, hdot, hv, ht, hfine⟩ := h
  have hnext {a b : UInt16} (ha : a.toNat + 1 ≤ b.toNat) (hne : a + 1 ≠ b) :
      (a + 1).toNat + 1 ≤ b.toNat := by
    have hb := b.toNat_lt
    have hsum : (a + 1).toNat = a.toNat + 1 := by
      rw [UInt16.toNat_add]
      exact Nat.mod_eq_of_lt (by change a.toNat + 1 < _; omega)
    have hne' : (a + 1).toNat ≠ b.toNat := fun he => hne (UInt16.toNat_inj.1 he)
    omega
  unfold WordMove.apply
  dsimp only
  split
  · exact ⟨Nat.zero_le _, Nat.zero_le _, hv, ht, hfine⟩
  · split
    · refine ⟨?_, Nat.zero_le _, hv, ht, hfine⟩
      dsimp only
      split
      · exact Nat.zero_le _
      case isFalse hne =>
        exact Nat.le_of_succ_le_succ (hnext (Nat.succ_le_succ hscanline) hne)
    case isFalse hne =>
      exact ⟨hscanline, Nat.le_of_succ_le_succ (hnext (Nat.succ_le_succ hdot) hne), hv, ht, hfine⟩

/-- No move takes a word out of its range. -/
theorem apply (h : x.InRange) (move : WordMove) : (move.apply x).InRange := by
  obtain ⟨hscanline, hdot, hv, ht, hfine⟩ := h
  have hv' : x.v.toNat < 0x8000 := Nat.lt_succ_of_le hv
  have ht' : x.t.toNat < 0x8000 := Nat.lt_succ_of_le ht
  have hmask (a b : UInt16) (hb : b.toNat < 0x8000) : (a &&& b).toNat < 0x8000 := by
    rw [UInt16.toNat_and]
    exact Nat.lt_of_le_of_lt Nat.and_le_right hb
  have hbyte (b : UInt8) : b.toUInt16.toNat < 0x8000 := by
    have hb := b.toNat_lt
    rw [UInt8.toNat_toUInt16]
    omega
  have withV {v : UInt16} (h : v.toNat < 0x8000) : InRange { x with v := v } :=
    ⟨hscanline, hdot, Nat.le_of_lt_succ h, ht, hfine⟩
  have withT {new : UInt16} (mask : UInt16) (h : new.toNat < 0x8000) :
      InRange { x with t := overlay mask x.t new } :=
    ⟨hscanline, hdot, hv, Nat.le_of_lt_succ (overlay_lt ht' h), hfine⟩
  cases move with
  | beam mayskip => exact .beam ⟨hscanline, hdot, hv, ht, hfine⟩ mayskip
  | column => exact withV (columnUp_lt hv')
  | row => exact withV (rowUp_lt hv')
  | copyColumn => exact withV (overlay_lt hv' (hmask _ _ (by decide)))
  | copyRow => exact withV (overlay_lt hv' (hmask _ _ (by decide)))
  | forward step => exact withV (hmask _ _ (by decide))
  | tables byte =>
    refine withT _ ?_
    rw [tables_eq]
    exact ScrollAddress.word_lt _
  | scrollColumn byte =>
    obtain ⟨-, -, -, ht, -⟩ := withT 0x001F (hbyte (byte >>> 3))
    refine ⟨hscanline, hdot, hv, ht, ?_⟩
    dsimp only [WordMove.apply]
    rw [UInt8.toNat_and]
    exact Nat.and_le_right
  | scrollRow byte =>
    refine withT _ ?_
    rw [rowByte_eq]
    exact ScrollAddress.word_lt _
  | high byte =>
    refine withT _ ?_
    rw [highByte_eq]
    omega
  | low byte =>
    obtain ⟨-, -, -, ht, -⟩ := withT 0x00FF (hbyte byte)
    exact ⟨hscanline, hdot, ht, ht, hfine⟩
  | reset => exact .powerUp

theorem run (h : x.InRange) (moves : List WordMove) : (x.run moves).InRange := by
  induction moves generalizing x with
  | nil => exact h
  | cons move moves ih => exact ih (h.apply move)

end InRange
end PictureWords

/-! ### The moves of an act -/

def Beam.fetchMoves (b : Beam) : List WordMove :=
  if b.dot.val ≤ 248 ∧ b.dot.val % 8 = 0 then
    if b.dot = 248 then [.copyColumn, .row] else [.column]
  else if 280 ≤ b.dot.val ∧ b.dot.val ≤ 304 ∧ b.scanline = preRenderLine then [.copyRow]
  else if b.dot = 321 then [.column]
  else []

namespace Ppu

def words (p : Ppu) : PictureWords where
  scanline := .ofNat p.beam.scanline.val
  dot := .ofNat p.beam.dot.val
  v := p.v.word
  t := p.t.word
  fineX := .ofNat p.fineX.val

def fetchMoves (p : Ppu) : List WordMove :=
  if p.mask.rendering && p.beam.onRenderLine then p.beam.fetchMoves else []

def readMoves (p : Ppu) (address : UInt16) : List WordMove :=
  if address.toNat % 8 = 7 then [.forward (.ofNat p.control.increment)] else []

def writeMoves (p : Ppu) (address : UInt16) (byte : UInt8) : List WordMove :=
  match address.toNat % 8 with
  | 0 => [.tables byte]
  | 1 | 2 | 3 | 4 => []
  | 5 => [if p.secondWrite then .scrollRow byte else .scrollColumn byte]
  | 6 => [if p.secondWrite then .low byte else .high byte]
  | _ => [.forward (.ofNat p.control.increment)]

def Act.moves {β : Type} (p : Ppu) : Act β → List WordMove
  | .dot => p.fetchMoves ++ [.beam (p.oddFrame && p.mask.rendering)]
  | .read address => p.readMoves address
  | .write address byte => p.writeMoves address byte
  | .objects _ | .rewire _ => []
  | .reset => [.reset]

theorem words_advance (rendering : Bool) (p : Ppu) : (advance rendering p).words =
    (WordMove.beam (p.oddFrame && rendering)).apply p.words := by
  have hscanline := p.beam.scanline.isLt
  have hdot := p.beam.dot.isLt
  have hword {n : Nat} (k : Nat) (hn : n < 1000) (hk : k < 1000) :
      UInt16.ofNat n = UInt16.ofNat k ↔ n = k := by
    rw [← UInt16.toNat_inj, UInt16.toNat_ofNat', UInt16.toNat_ofNat', Nat.mod_eq_of_lt (by omega),
      Nat.mod_eq_of_lt (by omega)]
  have hskip : (UInt16.ofNat p.beam.scanline.val == 261 && UInt16.ofNat p.beam.dot.val == 339) =
      (p.beam == ⟨Beam.preRenderLine, 339⟩) := by
    rw [Bool.eq_iff_iff, Bool.and_eq_true, beq_iff_eq, beq_iff_eq, beq_iff_eq]
    have hline := hword 261 (n := p.beam.scanline.val) (by omega) (by decide)
    refine (and_congr hline (hword 339 (by omega) (by decide))).trans ?_
    refine ⟨fun ⟨hs, hd⟩ => Beam.index_inj.1 ?_, fun h => h ▸ ⟨rfl, rfl⟩⟩
    rw [Beam.index, hs, hd]
    rfl
  have hnext (n : Nat) : UInt16.ofNat n + 1 = UInt16.ofNat (n + 1) := (UInt16.ofNat_add n 1).symm
  have hlast : UInt16.ofNat p.beam.dot.val + 1 = 341 ↔ p.beam.dot.val = 340 := by
    rw [hnext]
    exact (hword 341 (by omega) (by decide)).trans ⟨by omega, by omega⟩
  have hbottom : UInt16.ofNat p.beam.scanline.val + 1 = 262 ↔ p.beam.scanline.val = 261 := by
    rw [hnext]
    exact (hword 262 (by omega) (by decide)).trans ⟨by omega, by omega⟩
  unfold advance WordMove.apply
  dsimp only [words]
  rw [Bool.and_assoc (p.oddFrame && rendering), hskip]
  split
  · rfl
  · by_cases h340 : p.beam.dot.val = 340
    · obtain ⟨hline, hzero⟩ := Beam.next_of_last h340
      rw [if_pos (hlast.2 h340), hline, hzero]
      by_cases h261 : p.beam.scanline.val = 261
      · rw [if_pos (hbottom.2 h261), h261]
        rfl
      · rw [if_neg fun h => h261 (hbottom.1 h), Nat.mod_eq_of_lt (by omega), hnext]
        rfl
    · obtain ⟨hline, hright⟩ := Beam.next_of_lt (b := p.beam) (by omega)
      rw [if_neg fun h => h340 (hlast.1 h), hline, hright, hnext]

/-- The words show what a dot leaves as it is, the beam and the address. -/
theorem words_of_setting {p q : Ppu} (hs : p.setting = q.setting) (hv : p.v = q.v) :
    p.words = q.words := by
  have hbeam := beam_of_setting hs
  have hfine : p.fineX = q.fineX := congrArg Setting.fineX hs
  have ht : p.t = q.t := congrArg Setting.t hs
  unfold words
  rw [hbeam, hfine, ht, hv]

def fails {ε σ α : Type} (x : EStateM ε σ α) (s : σ) : Bool :=
  match x s with
  | .ok _ _ => false
  | .error _ _ => true

theorem finish_of_leads {ε σ α : Type} {x : EStateM ε σ α} {P Q E : σ → Prop} {s : σ}
    (h : Leads P x (fun _ => Q) fun _ => E) (hs : P s) :
    if fails x s then E (finish x s) else Q (finish x s) := by
  have hr := h s hs
  unfold fails finish
  cases hx : x s <;> rw [hx] at hr <;> exact hr

section
variable {β : Type} [Bus β]

omit [Bus β] in
theorem words_column (p : Ppu) (q : BackgroundQueue) :
    words { p with background := q, v := p.v.nextColumn } = p.words.run [.column] := by
  change { p.words with v := p.v.nextColumn.word } = _
  rw [ScrollAddress.word_nextColumn]
  rfl

omit [Bus β] in
theorem words_row (p : Ppu) (q : BackgroundQueue) :
    words { p with background := q, v := (p.v.withColumnOf p.t).nextRow } =
      p.words.run [.copyColumn, .row] := by
  change { p.words with v := (p.v.withColumnOf p.t).nextRow.word } = _
  rw [ScrollAddress.word_nextRow, ScrollAddress.word_withColumnOf]
  rfl

omit [Bus β] in
theorem words_copyRow (p : Ppu) :
    words { p with v := p.v.withRowOf p.t } = p.words.run [.copyRow] := by
  change { p.words with v := (p.v.withRowOf p.t).word } = _
  rw [ScrollAddress.word_withRowOf]
  rfl

/-- A refused fetch moves nothing. -/
theorem leads_fetchBackground (p : Ppu) :
    Leads (fun w : Wired Ppu β => w.chip = p) fetchBackground
      (fun _ w => w.chip.words = p.words.run p.beam.fetchMoves ∧ w.chip.timing = p.timing)
      fun _ w => w.chip.words = p.words := by
  have htile : Leads (fun w : Wired Ppu β => w.chip = p) fetchTile (fun _ w => w.chip = p)
      fun _ w => w.chip.words = p.words :=
    (keepsView_fetchTile id p).mono (fun _ h => h) (fun _ _ h => h) fun _ _ h => congrArg words h
  refine .bind (M := fun b w => w.chip = p ∧ b = p.beam) (fun w h => ⟨h, h ▸ rfl⟩) fun b w h => ?_
  obtain ⟨hw, rfl⟩ := h
  unfold Beam.fetchMoves
  by_cases htiles : p.beam.dot.val ≤ 248 ∧ p.beam.dot.val % 8 = 0
  · rw [if_pos htiles, if_pos htiles]
    refine Leads.bind htile (fun tile v hv => ?_) w hw
    subst hv
    refine ⟨?_, rfl⟩
    by_cases h248 : v.chip.beam.dot = 248
    · simp only [if_pos h248]
      exact words_row _ _
    · simp only [if_neg h248]
      exact words_column _ _
  · rw [if_neg htiles, if_neg htiles]
    by_cases hrow : 280 ≤ p.beam.dot.val ∧ p.beam.dot.val ≤ 304 ∧
        p.beam.scanline = Beam.preRenderLine
    · rw [if_pos hrow, if_pos hrow]
      subst hw
      exact ⟨words_copyRow _, rfl⟩
    · rw [if_neg hrow, if_neg hrow]
      by_cases hfirst : p.beam.dot = 321
      · rw [if_pos hfirst, if_pos hfirst]
        refine Leads.bind htile (fun tile v hv => ?_) w hw
        subst hv
        exact ⟨words_column _ _, rfl⟩
      · rw [if_neg hfirst, if_neg hfirst]
        subst hw
        exact ⟨rfl, rfl⟩

/-- The stages of a dot move the address as it is fetched, or where they are refused not at all. -/
theorem leads_drawStages (p : Ppu) : Leads (fun w : Wired Ppu β => w.chip = p)
    (drawStages p.mask.rendering p.beam)
    (fun _ w => w.chip.words = p.words.run p.fetchMoves ∧ w.chip.timing = p.timing)
    fun _ w => p.words.Partway p.fetchMoves w.chip.words := by
  have hsprites : Leads (fun w : Wired Ppu β => w.chip = p) (spriteStage p.beam)
      (fun _ w => w.chip.words = p.words ∧ w.chip.timing = p.timing)
      fun _ w => p.words.Partway p.fetchMoves w.chip.words := by
    have hkeeps : KeepsView (fun p => (p.words, p.timing))
        (spriteStage p.beam : EStateM BusError (Wired Ppu β) Unit) :=
      .ite (keepsView_prepareSprites (fun _ _ => rfl) fun _ => rfl) (.pure _)
    exact (hkeeps (p.words, p.timing)).mono (fun _ hw => hw ▸ rfl) (fun _ _ hw => Prod.ext_iff.1 hw)
      fun _ _ hw => .still (Prod.ext_iff.1 hw).1
  have hfetch : Leads (fun w : Wired Ppu β => w.chip.words = p.words ∧ w.chip.timing = p.timing)
      (fetchStage p.mask.rendering p.beam)
      (fun _ w => w.chip.words = p.words.run p.fetchMoves ∧ w.chip.timing = p.timing)
      fun _ w => p.words.Partway p.fetchMoves w.chip.words := by
    intro w ⟨hwords, htiming⟩
    have hbeam : w.chip.beam = p.beam := congrArg Timing.beam htiming
    unfold fetchStage fetchMoves
    by_cases hdraws : (p.mask.rendering && p.beam.onRenderLine) = true
    · rw [if_pos hdraws, if_pos hdraws]
      have hfetched := leads_fetchBackground (β := β) w.chip
      rw [hwords, htiming, hbeam] at hfetched
      exact hfetched.mono (fun _ hv => hv) (fun _ _ hv => hv) (fun _ _ hv => .still hv) w rfl
    · rw [if_neg hdraws, if_neg hdraws]
      exact ⟨hwords, htiming⟩
  have hrest : Leads
      (fun w : Wired Ppu β => w.chip.words = p.words.run p.fetchMoves ∧ w.chip.timing = p.timing)
      (renderPixel >>= fun _ => shiftStage p.mask.rendering p.beam)
      (fun _ w => w.chip.words = p.words.run p.fetchMoves ∧ w.chip.timing = p.timing)
      fun _ w => p.words.Partway p.fetchMoves w.chip.words := by
    have hkeeps : KeepsView (fun p => (p.words, p.timing)) (renderPixel >>= fun _ =>
        shiftStage p.mask.rendering p.beam : EStateM BusError (Wired Ppu β) Unit) :=
      .bind (keepsView_renderPixel (fun _ => rfl) fun _ _ _ => rfl) fun _ =>
        .ite (.update fun _ => rfl) (.pure _)
    exact (hkeeps (p.words.run p.fetchMoves, p.timing)).mono (fun _ hw => Prod.ext hw.1 hw.2)
      (fun _ _ hw => Prod.ext_iff.1 hw) fun _ _ hw => .of_eq (Prod.ext_iff.1 hw).1
  -- The timing goes along because the fetch depends on where the beam stands.
  exact hsprites.bind fun _ => hfetch.bind fun _ => hrest

/-- A dot that succeeds makes its moves, and one that is refused some of them. -/
theorem leads_step (w : Wired Ppu β) : Leads (fun v => v = w) step
    (fun _ v => v.chip.words = w.chip.words.run ((Act.dot : Act β).moves w.chip))
    fun _ v => w.chip.words.Partway ((Act.dot : Act β).moves w.chip) v.chip.words := by
  obtain ⟨hsetting, hpipeline, -⟩ := w.chip.beginDot_leaves
  have hwords : (beginDot w.chip).words = w.chip.words :=
    words_of_setting hsetting (congrArg Prod.fst hpipeline)
  have hmoves : (beginDot w.chip).fetchMoves = w.chip.fetchMoves := by
    unfold fetchMoves
    rw [beginDot_mask, beam_of_setting hsetting]
  have hodd : (beginDot w.chip).oddFrame = w.chip.oddFrame := congrArg Setting.oddFrame hsetting
  have hdraw := leads_drawStages (β := β) (beginDot w.chip)
  rw [beginDot_mask, hwords, hmoves] at hdraw
  intro u hu
  rw [hu, step_apply]
  refine ((hdraw.mono (fun _ h => h) (fun _ _ h => h) fun _ _ h => h.append _).bind
    fun _ v hv => ?_) ⟨beginDot w.chip, w.bus⟩ rfl
  have hodd' : v.chip.oddFrame = w.chip.oddFrame := (congrArg Timing.oddFrame hv.2).trans hodd
  change (advance w.chip.mask.rendering v.chip).words = _
  rw [words_advance, hv.1, hodd', Act.moves, PictureWords.run_append]
  rfl

omit [Bus β] in
theorem words_stepAddress (p : Ppu) :
    p.stepAddress.words = p.words.run [.forward (.ofNat p.control.increment)] := by
  have hstep : p.control.increment < 0x8000 := by
    unfold Control.increment
    split <;> decide
  change { p.words with v := (ScrollAddress.ofNat (p.v.toNat + p.control.increment)).word } = _
  rw [p.v.word_forward hstep]
  rfl

/-- What an access of the data register leaves as it is until it moves the address. -/
def resting (p : Ppu) : PictureWords × Control := (p.words, p.control)

omit [Bus β] in
theorem leads_resting (p : Ppu) {α : Type} {x : EStateM BusError (Wired Ppu β) α}
    (hx : KeepsView resting x) : Leads (fun w => w.chip.resting = p.resting) x
      (fun _ w => w.chip.resting = p.resting) fun _ w => w.chip.words = p.words :=
  (hx p.resting).mono (fun _ h => h) (fun _ _ h => h) fun _ _ h => congrArg Prod.fst h

omit [Bus β] in
theorem words_stepAddress_of_resting {p q : Ppu} (h : q.resting = p.resting) :
    q.stepAddress.words = p.words.run [.forward (.ofNat p.control.increment)] := by
  have hwords : q.words = p.words := congrArg Prod.fst h
  have hcontrol : q.control = p.control := congrArg Prod.snd h
  rw [words_stepAddress, hwords, hcontrol]

/-- An access of the data register moves the address at its end. -/
theorem leads_readData (p : Ppu) :
    Leads (fun w : Wired Ppu β => w.chip.resting = p.resting) readData
      (fun _ w => w.chip.words = p.words.run [.forward (.ofNat p.control.increment)])
      fun _ w => w.chip.words = p.words := by
  refine (leads_resting p (.look _)).bind fun address => .ite ?_ ?_
  · refine (leads_resting p (.read _)).bind fun below => (leads_resting p
      (.update (g := fun p => { p with readBuffer := below }) fun _ => rfl)).bind fun _ =>
        (leads_resting p (.read _)).bind fun byte w hw => ?_
    exact words_stepAddress_of_resting hw
  · refine (leads_resting p (.read _)).bind fun fresh =>
      (leads_resting p (.look _)).bind fun byte w hw => ?_
    exact words_stepAddress_of_resting (q := { w.chip with readBuffer := fresh }) hw

theorem leads_writeData (p : Ppu) (byte : UInt8) :
    Leads (fun w : Wired Ppu β => w.chip.resting = p.resting)
      (Wired.look (·.v.busAddress) >>= fun address => Wired.write address byte >>= fun _ =>
        Wired.update stepAddress)
      (fun _ w => w.chip.words = p.words.run [.forward (.ofNat p.control.increment)])
      fun _ w => w.chip.words = p.words := by
  refine (leads_resting p (.look _)).bind fun address =>
    (leads_resting p (.write address byte)).bind fun _ w hw => ?_
  exact words_stepAddress_of_resting hw

omit [Bus β] in
theorem words_powerUp : words {} = {} := by
  simp only [words]
  decide

omit [Bus β] in
theorem words_reset (p : Ppu) : p.reset.words = {} := by
  simp only [words, reset]
  decide

omit [Bus β] in
theorem words_writeControl (byte : UInt8) (p : Ppu) :
    (p.writeControl byte).words = p.words.run [.tables byte] := by
  change { p.words with t := ScrollAddress.word { p.t with
    tableX := (Control.mk byte).tableX, tableY := (Control.mk byte).tableY } } = _
  rw [ScrollAddress.word_tables]
  rfl

omit [Bus β] in
theorem words_writeScroll (byte : UInt8) (p : Ppu) : (p.writeScroll byte).words =
    p.words.run [if p.secondWrite then .scrollRow byte else .scrollColumn byte] := by
  unfold writeScroll
  cases p.secondWrite with
  | true => exact congrArg (fun t => { p.words with t := t }) (p.t.word_row byte)
  | false =>
    have hfine : UInt8.ofNat (byte.toNat % 8) = byte &&& 0x07 :=
      forall_byte (P := fun b => UInt8.ofNat (b.toNat % 8) = b &&& 0x07) (by decide +kernel) byte
    change PictureWords.mk _ _ _ (ScrollAddress.word { p.t with
      coarseX := ⟨byte.toNat / 8, by have := byte.toNat_lt; omega⟩ }) (.ofNat (byte.toNat % 8)) = _
    rw [p.t.word_column byte, hfine]
    rfl

omit [Bus β] in
theorem words_writeAddress (byte : UInt8) (p : Ppu) : (p.writeAddress byte).words =
    p.words.run [if p.secondWrite then .low byte else .high byte] := by
  unfold writeAddress
  cases p.secondWrite with
  | true => exact congrArg (fun t => { p.words with t := t, v := t }) (p.t.word_low byte)
  | false => exact congrArg (fun t => { p.words with t := t }) (p.t.word_high byte)

theorem leads_readRegister (p : Ppu) (address : UInt16) :
    Leads (fun w : Wired Ppu β => w.chip = p) (readRegister address)
      (fun _ w => w.chip.words = p.words.run (p.readMoves address))
      fun _ w => p.words.Partway (p.readMoves address) w.chip.words := by
  unfold readMoves
  by_cases hdata : address.toNat % 8 = 7
  · have hread : (readRegister address : EStateM BusError (Wired Ppu β) UInt8) = readData := by
      unfold readRegister
      rw [hdata]
      rfl
    rw [hread, if_pos hdata]
    exact (leads_readData p).mono (fun _ h => congrArg resting h) (fun _ _ h => h)
      fun _ _ h => .still h
  · have hkeeps : KeepsView words
        (readRegister address : EStateM BusError (Wired Ppu β) UInt8) := by
      unfold readRegister
      split
      · exact .bind (.look _) fun _ => .bind (.update fun _ => rfl) fun _ => .pure _
      · exact .look _
      · exact absurd ‹_› hdata
      · exact .look _
    rw [if_neg hdata]
    exact (hkeeps p.words).mono (fun _ h => congrArg words h) (fun _ _ h => h)
      fun _ _ h => .still h

theorem leads_writeRegister (p : Ppu) (address : UInt16) (byte : UInt8) :
    Leads (fun w : Wired Ppu β => w.chip = p) (writeRegister address byte)
      (fun _ w => w.chip.words = p.words.run (p.writeMoves address byte))
      fun _ w => p.words.Partway (p.writeMoves address byte) w.chip.words := by
  have hupdate {q : Ppu} {g : Ppu → Ppu} {moves : List WordMove}
      (h : (g q).words = p.words.run moves) : Leads (fun w : Wired Ppu β => w.chip = q)
        (Wired.update g : EStateM BusError (Wired Ppu β) Unit)
        (fun _ w => w.chip.words = p.words.run moves) fun _ w =>
          p.words.Partway moves w.chip.words := by
    rintro w rfl
    exact h
  unfold writeRegister writeMoves
  generalize address.toNat % 8 = register
  refine Leads.bind (M := fun _ w => w.chip = { p with latch := byte }) ?_ fun _ => ?_
  · rintro w rfl
    rfl
  match register with
  | 0 => exact hupdate (words_writeControl byte _)
  | 1 | 3 | 4 => exact hupdate rfl
  | 2 => exact fun w hw => (congrArg words hw).trans rfl
  | 5 => exact hupdate (words_writeScroll byte _)
  | 6 => exact hupdate (words_writeAddress byte _)
  | n + 7 =>
    have hlatch {q : Ppu} (h : q = { p with latch := byte }) : q.resting = p.resting := by
      rw [h]
      rfl
    exact (leads_writeData p byte).mono (fun _ hw => hlatch hw) (fun _ _ h => h)
      fun _ _ h => .still h

def Act.isRefused : Act β → Wired Ppu β → Bool
  | .dot, w => fails step w
  | .read address, w => fails (readRegister address) w
  | .write address byte, w => fails (writeRegister address byte) w
  | .objects _, _ | .reset, _ | .rewire _, _ => false

/-- An act makes its moves, the first of them where it is refused. -/
theorem words_after (a : Act β) (w : Wired Ppu β) :
    if a.isRefused w then w.chip.words.Partway (a.moves w.chip) (a.after w).chip.words
    else (a.after w).chip.words = w.chip.words.run (a.moves w.chip) := by
  cases a with
  | dot => exact finish_of_leads (leads_step w) rfl
  | read address => exact finish_of_leads (leads_readRegister w.chip address) rfl
  | write address byte => exact finish_of_leads (leads_writeRegister w.chip address byte) rfl
  | objects block =>
    change (w.chip.writeObjects block).words = w.chip.words
    simp only [words, writeObjects]
  | reset => exact w.chip.words_reset
  | rewire bus => exact rfl

theorem partway_after (a : Act β) (w : Wired Ppu β) :
    w.chip.words.Partway (a.moves w.chip) (a.after w).chip.words := by
  have hafter := words_after a w
  split at hafter
  · exact hafter
  · exact .of_eq hafter

end
end Ppu
end NesConsole
