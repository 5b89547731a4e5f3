import NesConsole.Proofs.Logging.QuietReads
import NesConsole.Proofs.Picture.Beat

/-! Two picture units that differ in the frames they have counted and in what the beam has not yet
drawn over. Neither the count nor the picture is ever looked at, so dots and register accesses do
the same to both, and once the beam has passed an entry both show the same there. -/
namespace NesConsole

section
variable {ε α δ κ κ' β γ : Type} {t : κ → κ} {R : β → γ → Prop}

def SameBut (t : κ → κ) (R : β → γ → Prop) (w : Wired κ β) (v : Wired κ γ) : Prop :=
  v.chip = t w.chip ∧ R w.bus v.bus

namespace SameBut

theorem look {f : κ → α} (h : ∀ c, f (t c) = f c) :
    Agree (ε := ε) (SameBut t R) (Wired.look f) (Wired.look f) := by
  intro w v hw
  refine ⟨?_, hw⟩
  rw [hw.1, h]

theorem update {f : κ → κ} (h : ∀ c, f (t c) = t (f c)) :
    Agree (ε := ε) (SameBut t R) (Wired.update f) (Wired.update f) := by
  intro w v hw
  refine ⟨rfl, ?_, hw.2⟩
  change f v.chip = t (f w.chip)
  rw [hw.1, h]

theorem onBus {x : EStateM ε β α} {y : EStateM ε γ α} (h : Agree R x y) :
    Agree (SameBut t R) (Wired.onBus x) (Wired.onBus y) := by
  intro ⟨c, b⟩ ⟨c', b'⟩ ⟨hc, hb⟩
  have hr := h b b' hb
  dsimp only [Wired.onBus]
  cases hx : x b <;> cases hy : y b' <;> rw [hx, hy] at hr
  case ok.ok => exact ⟨hr.1, hc, hr.2⟩
  case error.error => exact ⟨hr.1, hc, hr.2⟩
  all_goals exact hr.elim

/-- A part that `t` leaves as it is. -/
theorem onPart {get : κ → κ'} {put : κ' → κ → κ} {x : EStateM ε (Wired κ' β) α}
    {y : EStateM ε (Wired κ' γ) α} (h : Agree (SameChip R) x y) (hget : ∀ c, get (t c) = get c)
    (hput : ∀ k c, put k (t c) = t (put k c)) :
    Agree (SameBut t R) (Wired.onPart get put x) (Wired.onPart get put y) := by
  intro ⟨c, b⟩ ⟨c', b'⟩ ⟨hc, hb⟩
  obtain rfl : c' = t c := hc
  have hr := h ⟨get c, b⟩ ⟨get c, b'⟩ ⟨rfl, hb⟩
  dsimp only [Wired.onPart]
  rw [hget]
  cases hx : x ⟨get c, b⟩ <;> cases hy : y ⟨get c, b'⟩ <;> rw [hx, hy] at hr
  case ok.ok a w _ v =>
    obtain ⟨rfl, hchip, hbus⟩ := hr
    exact ⟨rfl, (hput v.chip c).trans (by rw [hchip]), hbus⟩
  case error.error e w _ v =>
    obtain ⟨rfl, hchip, hbus⟩ := hr
    exact ⟨rfl, (hput v.chip c).trans (by rw [hchip]), hbus⟩
  all_goals exact hr.elim

variable [Bus β] [Bus γ] [BusAgreement R]

theorem read (address : UInt16) :
    Agree (SameBut t R) (Wired.read address) (Wired.read address) :=
  SameBut.onBus (BusAgreement.read address)

theorem write (address : UInt16) (data : UInt8) :
    Agree (SameBut t R) (Wired.write address data) (Wired.write address data) :=
  SameBut.onBus (BusAgreement.write address data)

end SameBut
end

namespace Ppu

/-! ### The count of frames and the picture -/

def remount (frames : Nat) (picture : Vector UInt32 (256 * 240)) (p : Ppu) : Ppu :=
  { p with frames := frames, picture := picture }

section
variable (frames : Nat) (picture : Vector UInt32 (256 * 240)) (p : Ppu) (mem : UInt16 → UInt8)

theorem remount_beginDot : beginDot (remount frames picture p) =
    remount (frames + (p.beam == .vblankStart).toNat) picture (beginDot p) := by
  have hbeam : (remount frames picture p).beam = p.beam := rfl
  simp only [beginDot, hbeam]
  by_cases hstart : p.beam = .vblankStart
  · rw [if_pos hstart, if_pos hstart, hstart]
    rfl
  · rw [if_neg hstart, if_neg hstart, beq_false_of_ne hstart]
    split <;> rfl

theorem remount_spritesStageFrom : spritesStageFrom mem (remount frames picture p) =
    remount frames picture (spritesStageFrom mem p) := by
  simp only [spritesStageFrom, prepareFrom, apply_ite (remount frames picture)]
  rfl

theorem remount_fetchStageFrom : fetchStageFrom mem (remount frames picture p) =
    remount frames picture (fetchStageFrom mem p) := by
  simp only [fetchStageFrom, fetchFrom, apply_ite (remount frames picture)]
  rfl

theorem remount_noteHit : (remount frames picture p).noteHit =
    remount frames picture p.noteHit := by
  simp only [noteHit, apply_ite (remount frames picture)]
  rfl

theorem remount_shiftStageFrom : shiftStageFrom (remount frames picture p) =
    remount frames picture (shiftStageFrom p) := by
  simp only [shiftStageFrom, apply_ite (remount frames picture)]
  rfl

theorem remount_advance (rendering : Bool) : advance rendering (remount frames picture p) =
    remount frames picture (advance rendering p) := by
  simp only [advance, apply_ite (remount frames picture)]
  rfl

def ink : UInt32 :=
  colorOf (if p.mask.greyscale then mem p.chosenCell &&& 0x30 else mem p.chosenCell)

def inked : Vector UInt32 (256 * 240) :=
  p.beam.pixel?.elim picture fun i =>
    (drawPixel i (mem p.chosenCell) { p with picture := picture }).picture

theorem get_inked (i : Fin (256 * 240)) : (inked picture p mem).get i =
    if p.beam.pixel? = some i then ink p mem else picture.get i := by
  unfold inked
  cases hpixel : p.beam.pixel? with
  | none => rw [Option.elim_none, if_neg (Option.some_ne_none i).symm]
  | some j =>
    by_cases hj : j = i
    · rw [hj, if_pos rfl]
      exact Vector.getElem_set_self _
    · rw [if_neg fun he => hj (Option.some_inj.1 he)]
      exact Vector.getElem_set_ne j.isLt i.isLt fun he => hj (Fin.ext he)

theorem remount_fetchedFrom : fetchedFrom mem (remount frames picture p) =
    remount (frames + (p.beam == .vblankStart).toNat) picture (fetchedFrom mem p) := by
  rw [fetchedFrom, remount_beginDot, remount_spritesStageFrom, remount_fetchStageFrom, fetchedFrom]

theorem remount_renderFrom : renderFrom mem (remount frames picture p) =
    remount frames (inked picture p mem) (renderFrom mem p) := by
  have hbeam : (remount frames picture p).beam = p.beam := rfl
  have hmask : p.noteHit.mask = p.mask := mask_of_setting p.noteHit_leaves.1
  unfold renderFrom inked
  rw [hbeam, remount_noteHit]
  cases p.beam.pixel? with
  | none => rfl
  | some i =>
    simp only [drawPixel, remount, hmask]
    rfl

/-- A dot does the same to both, and draws the same color. -/
theorem remount_stepFrom : stepFrom mem (remount frames picture p) =
    remount (frames + (p.beam == .vblankStart).toNat) (inked picture (fetchedFrom mem p) mem)
      (stepFrom mem p) := by
  have hmask : (remount frames picture p).mask = p.mask := rfl
  rw [stepFrom, hmask, remount_fetchedFrom, remount_renderFrom, remount_shiftStageFrom,
    remount_advance, stepFrom]

end

/-! ### Since a reset -/

/-- Two units `n` dots after resets that found `f` and `g` frames counted: alike, but for the counts
and for the entries of the picture that the beam has not passed since. -/
structure Redrawn (f g n : Nat) (p q : Ppu) : Prop where
  rest : q = p.remount q.frames q.picture
  frames : p.frames + g = q.frames + f
  passed : ∀ i, entryPlace i < n → p.picture.get i = q.picture.get i
  /-- Up to the last entry the beam is where the dots have brought it. -/
  clock : n < 82096 → p.timing.place = n ∧ (n ≤ 340 → p.oddFrame = false)

theorem redrawn_reset {p q : Ppu} (h : p.oam = q.oam) :
    Redrawn p.frames q.frames 0 p.reset q.reset where
  rest := by
    unfold reset
    rw [h]
    rfl
  frames := Nat.add_comm _ _
  passed _ hi := absurd hi (Nat.not_lt_zero _)
  clock _ := by
    have hbeam : p.reset.timing.beam = ⟨Beam.preRenderLine, 0⟩ := rfl
    refine ⟨?_, fun _ => rfl⟩
    rw [Timing.place, hbeam]
    rfl

section
variable {f g n : Nat} {p q : Ppu}

theorem Redrawn.tick (h : Redrawn f g n p q) : q.tick = p.tick := by
  rw [h.rest]
  rfl

/-- What changes neither the picture nor the timing, and commutes with any remounting. -/
theorem Redrawn.touched {p' q' : Ppu} (h : Redrawn f g n p q)
    (hrest : q' = p'.remount q.frames q.picture) (htouch : p.timing.Touch p'.timing)
    (hpicture : p'.picture = p.picture) : Redrawn f g n p' q' := by
  have hframes : p'.frames = p.frames := htouch.frames
  have hframes' : q'.frames = q.frames := by rw [hrest]; rfl
  have hpicture' : q'.picture = q.picture := by rw [hrest]; rfl
  refine ⟨?_, ?_, fun i hi => ?_, fun hn => ?_⟩
  · rw [hframes', hpicture', ← hrest]
  · rw [hframes, hframes']
    exact h.frames
  · rw [hpicture, hpicture']
    exact h.passed i hi
  · obtain ⟨hplace, hodd⟩ := h.clock hn
    exact ⟨htouch.place.trans hplace, fun hle => htouch.oddFrame.trans (hodd hle)⟩

theorem entryPlace_lt (i : Fin (256 * 240)) : entryPlace i < 82096 := by
  have hi := i.isLt
  rw [entryPlace]
  omega

/-- The first line after a reset is not cut short, so the beam goes on dot by dot. -/
theorem Redrawn.clock_next (h : Redrawn f g n p q) (hn : n + 1 < 82096) :
    p.timing.next.place = n + 1 ∧ (n + 1 ≤ 340 → p.timing.next.oddFrame = false) := by
  obtain ⟨hplace, hodd⟩ := h.clock (Nat.lt_of_succ_lt hn)
  have hskips : p.timing.skips = false := by
    by_cases hlast : p.timing.place = 339
    · have hfirst : p.oddFrame = false := hodd (by omega)
      rw [Timing.skips, show p.timing.oddFrame = false from hfirst]
      rfl
    · exact Timing.skips_of_place hlast
  refine ⟨?_, fun hle => ?_⟩
  · rw [Timing.place_next, hskips, hplace]
    exact Nat.mod_eq_of_lt (Nat.lt_trans hn (by decide))
  · have hfirst : p.timing.oddFrame = false := hodd (by omega)
    rw [Timing.oddFrame_next, hskips, hfirst, hplace, beq_false_of_ne (by omega)]
    rfl

theorem Redrawn.dot (h : Redrawn f g n p q) (mem : UInt16 → UInt8)
    (htiming : (stepFrom mem p).timing = p.timing.next) :
    Redrawn f g (n + 1) (stepFrom mem p) (stepFrom mem q) := by
  have hp := remount_stepFrom p.frames p.picture p mem
  have hq := remount_stepFrom q.frames q.picture p mem
  rw [← h.rest] at hq
  have hbeam : (fetchedFrom mem p).beam = p.beam := beam_of_setting (setting_fetchedFrom mem p)
  change stepFrom mem p = _ at hp
  refine ⟨?_, ?_, fun i hi => ?_, fun hn => ?_⟩
  · rw [hq]
    rfl
  · rw [hp, hq]
    have := h.frames
    change p.frames + _ + g = q.frames + _ + f
    omega
  · rw [hp, hq]
    change (inked p.picture _ mem).get i = (inked q.picture _ mem).get i
    rw [get_inked, get_inked, hbeam]
    -- The entry under the beam gets one color on both; any other was passed before.
    split
    case isTrue => rfl
    case isFalse hpixel =>
      refine h.passed i (Nat.lt_of_le_of_ne (Nat.le_of_lt_succ hi) fun hlast => hpixel ?_)
      have hplace := (h.clock (hlast ▸ entryPlace_lt i)).1
      exact (pixel?_eq_some p.timing i).2 (hplace.trans hlast.symm)
  · have hnext := h.clock_next hn
    rw [← htiming] at hnext
    exact hnext

end

/-! ### Register accesses -/

section
variable {β : Type} [Bus β] {R : β → β → Prop} [BusAgreement R]
variable (frames : Nat) (picture : Vector UInt32 (256 * 240))

theorem remount_readRegister (address : UInt16) :
    Agree (SameBut (remount frames picture) R) (readRegister address) (readRegister address) := by
  unfold readRegister
  split
  · exact .bind (SameBut.look fun _ => rfl) fun _ => .bind (SameBut.update fun _ => rfl) fun _ =>
      .pure _
  · exact SameBut.look fun _ => rfl
  · refine .bind (SameBut.look fun _ => rfl) fun place => ?_
    split
    · exact .bind (SameBut.read _) fun _ => .bind (SameBut.update fun _ => rfl) fun _ =>
        .bind (SameBut.read _) fun _ => .bind (SameBut.update fun _ => rfl) fun _ => .pure _
    · exact .bind (SameBut.read _) fun _ => .bind (SameBut.look fun _ => rfl) fun _ =>
        .bind (SameBut.update fun _ => rfl) fun _ => .pure _
  · exact SameBut.look fun _ => rfl

theorem remount_writeRegister (address : UInt16) (data : UInt8) :
    Agree (SameBut (remount frames picture) R) (writeRegister address data)
      (writeRegister address data) := by
  refine .bind (SameBut.update fun _ => rfl) fun _ => ?_
  generalize address.toNat % 8 = register
  match register with
  | 0 | 1 | 3 | 4 => exact SameBut.update fun _ => rfl
  | 2 => exact .pure _
  | 5 =>
    refine SameBut.update fun p => ?_
    simp only [writeScroll, apply_ite (remount frames picture)]
    rfl
  | 6 =>
    refine SameBut.update fun p => ?_
    simp only [writeAddress, apply_ite (remount frames picture)]
    rfl
  | n + 7 =>
    exact .bind (SameBut.look fun _ => rfl) fun _ => .bind (SameBut.write _ _) fun _ =>
      SameBut.update fun _ => rfl

end

end Ppu
end NesConsole
