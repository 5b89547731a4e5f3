import NesConsole.Proofs.FrameClock
import NesConsole.Proofs.Picture.Painting

/-! The frame under way, whatever is done to the picture unit between its dots: the beam is where
the dots since the frame began have brought it, and the entries that it has passed are those that
are written. -/
namespace NesConsole
namespace Ppu

/-! ### Deeds and the beam -/

section
variable {β : Type} [Bus β]

/-- What was tried since power-up, latest first, and what that has come to. A dot may be refused
as well as an access. -/
inductive Tried : List (Deed β) → Wired Ppu β → Prop where
  | powerUp (bus : β) : Tried [] ⟨{}, bus⟩
  | act {past : List (Deed β)} {w : Wired Ppu β} (a : Act β) (h : Tried past w) :
    Tried (⟨a, w⟩ :: past) (a.after w)

namespace Deed

def completes (d : Deed β) : Bool := d.tick?.any (·.frameComplete)

def opens (d : Deed β) : Bool := d.completes || d.act.isReset

def skips (d : Deed β) : Bool := d.isTick && d.before.chip.timing.skips

end Deed

/-- Below the picture no stage of a dot reaches the bus. -/
theorem drawStages_vblankStart (rendering : Bool) {w : Wired Ppu β}
    (h : w.chip.beam = .vblankStart) : drawStages rendering .vblankStart w = .ok () w := by
  have hsprites : (spriteStage .vblankStart : EStateM BusError (Wired Ppu β) Unit) = pure () := rfl
  have hfetch : (fetchStage rendering .vblankStart : EStateM BusError (Wired Ppu β) Unit) =
      pure () := by cases rendering <;> rfl
  have hshift : (shiftStage rendering .vblankStart : EStateM BusError (Wired Ppu β) Unit) =
      pure () := by cases rendering <;> rfl
  have hrender : renderPixel w = .ok () w := by
    obtain ⟨p, b⟩ := w
    cases p
    cases h
    rfl
  rw [drawStages, hsprites, hfetch, hshift]
  exact bind_ok hrender

/-- A dot that is refused leaves the beam in place, and the start of the blank is not refused. -/
theorem timing_of_refused {w w' : Wired Ppu β} {e : BusError} (h : step w = .error e w') :
    w'.chip.timing = (beginDot w.chip).timing ∧ w.chip.beam ≠ .vblankStart := by
  have hbegin : (beginDot w.chip).beam = w.chip.beam :=
    congrArg Timing.beam (timing_beginDot w.chip)
  have hkeeps := keepsView_drawStages (β := β) w.chip.mask.rendering (beginDot w.chip).beam
    _ ⟨beginDot w.chip, w.bus⟩ rfl
  rw [step_apply] at h
  cases hx : drawStages w.chip.mask.rendering (beginDot w.chip).beam ⟨beginDot w.chip, w.bus⟩ with
  | ok a v =>
    rw [bind_ok hx] at h
    cases h
  | error e' v =>
    rw [bind_error hx] at h
    rw [hx] at hkeeps
    cases h
    refine ⟨hkeeps, fun hb => ?_⟩
    rw [hbegin, hb, drawStages_vblankStart _ (hbegin.trans hb)] at hx
    cases hx

inductive Deed.Moves (d : Deed β) (t : Timing) : Prop where
  | tick (htick : d.isTick = true) (hreset : d.act.isReset = false)
    (hcompletes : d.completes = (d.before.chip.timing.place == 82523))
    (ht : t = d.before.chip.timing.next)
  | reset (htick : d.isTick = false) (hcompletes : d.completes = false)
    (hreset : d.act.isReset = true) (ht : t = d.before.chip.reset.timing)
  | still (htick : d.isTick = false) (hcompletes : d.completes = false)
    (hreset : d.act.isReset = false) (hplace : t.place = d.before.chip.timing.place)
    (hodd : t.oddFrame = d.before.chip.timing.oddFrame)
    (hframes : t.frames = d.before.chip.timing.frames)

theorem Deed.moves (a : Act β) (w : Wired Ppu β) :
    Deed.Moves ⟨a, w⟩ (a.after w).chip.timing := by
  have touched {t : Timing} (htick : (⟨a, w⟩ : Deed β).isTick = false)
      (hcompletes : (⟨a, w⟩ : Deed β).completes = false) (hreset : a.isReset = false)
      (ht : w.chip.timing.Touch t) : Deed.Moves ⟨a, w⟩ t :=
    .still htick hcompletes hreset ht.place ht.oddFrame ht.frames
  have same : w.chip.timing.Touch w.chip.timing := (Timing.ReadTouch.of_eq rfl).toTouch
  cases a with
  | dot =>
    cases hs : step w with
    | ok t w' =>
      obtain ⟨rfl, ht⟩ := step_timing hs
      have htick : (⟨.dot, w⟩ : Deed β).tick? = some w.chip.tick :=
        Deed.tick?_eq_some.2 ⟨rfl, _, hs⟩
      refine .tick (by rw [isTick, htick]; rfl) rfl ?_ ?_
      · rw [completes, htick]
        exact w.chip.frameComplete_eq_place
      · rw [Act.after, finish, hs, ← timing_advance_beginDot]
        exact ht
    | error e w' =>
      obtain ⟨ht, hstart⟩ := timing_of_refused hs
      have htick : (⟨.dot, w⟩ : Deed β).tick? = none := by
        rw [tick?, hs]
      have hafter : (Act.dot.after w).chip.timing = (beginDot w.chip).timing := by
        rw [Act.after, finish, hs, ht]
      rw [hafter, timing_beginDot, beq_false_of_ne hstart]
      exact .still (by rw [isTick, htick]; rfl) (by rw [completes, htick]; rfl) rfl rfl rfl rfl
  | read address =>
    exact touched rfl rfl rfl (finish_of_goes (touches_readRegister address _) rfl).toTouch
  | write address data =>
    exact touched rfl rfl rfl (finish_of_goes (touches_writeRegister address data _) rfl)
  | objects block =>
    refine touched rfl rfl rfl ?_
    rw [Act.after, timing_writeObjects]
    exact same
  | reset => exact .reset rfl rfl rfl rfl
  | rewire bus => exact touched rfl rfl rfl same

/-- The count of frames grows by one with each frame that ends, and at no other time. -/
theorem frames_after (a : Act β) (w : Wired Ppu β) :
    (a.after w).chip.frames = w.chip.frames + (⟨a, w⟩ : Deed β).completes.toNat := by
  change (a.after w).chip.timing.frames = w.chip.timing.frames + _
  cases Deed.moves a w with
  | tick _ _ hcompletes ht => rw [ht, hcompletes, Timing.frames_next]
  | reset _ hcompletes _ ht =>
    rw [ht, hcompletes]
    rfl
  | still _ hcompletes _ _ _ hframes =>
    rw [hframes, hcompletes]
    rfl

/-! ### The frame under way -/

@[ext]
structure Beat where
  /-- Frames completed since power-up or the latest reset. -/
  done : Nat := 0
  /-- Dots before the pre-render line in the frame under way: those that the blank had left when a
  frame was completed, none after power-up and a reset. -/
  lead : Nat := 0
  /-- Dots of the frame under way, those left out among them. -/
  passed : Nat := 0
  leftOut : Nat := 0

def underWay (past : List (Deed β)) : List (Deed β) := past.takeWhile fun d => !d.opens

def beat : List (Deed β) → Beat
  | [] => {}
  | d :: past =>
    if d.act.isReset then {}
    else if d.completes then { done := (beat past).done + 1, lead := 6818 }
    else
      { beat past with
        passed := (beat past).passed + d.isTick.toNat + d.skips.toNat
        leftOut := (beat past).leftOut + d.skips.toNat }

/-- The beam and the parity of the frame are where the dots have brought them, so only an odd number
of frames is followed by a frame that leaves out a dot. -/
structure OnBeat (b : Beat) (t : Timing) : Prop where
  lead : b.lead = 0 ∧ b.done = 0 ∨ b.lead = 6818 ∧ 1 ≤ b.done
  clocked : t.Clocked (89342 * b.done + b.passed - b.lead)
  inFrame : b.passed ≤ 82523 + b.lead
  parity : b.leftOut ≤ b.done % 2
  late : b.leftOut = 0 ∨ 341 + b.lead ≤ b.passed

theorem OnBeat.start {t : Timing} (hbeam : t.beam = ⟨Beam.preRenderLine, 0⟩)
    (hodd : t.oddFrame = false) : OnBeat {} t := by
  have hplace : (Beam.index ⟨Beam.preRenderLine, 0⟩ + 341) % 89342 = 0 := by decide
  refine ⟨.inl ⟨rfl, rfl⟩, ⟨?_, hodd⟩, Nat.zero_le _, Nat.zero_le _, .inl rfl⟩
  rw [Timing.place, hbeam, hplace]
  exact (Nat.zero_mod 89342).symm

section
variable {b : Beat} {s t : Timing}

/-- The dot that completes a frame is the last that the frame has. -/
theorem OnBeat.passed_of_place (h : OnBeat b t) (hplace : t.place = 82523) :
    b.passed = 82523 + b.lead := by
  have hlead := h.lead
  have hin := h.inFrame
  have hp := h.clocked.place
  omega

theorem OnBeat.passed_of_place_beforeSkip (h : OnBeat b t) (hplace : t.place = 339) :
    b.passed = 339 + b.lead := by
  have hlead := h.lead
  have hin := h.inFrame
  have hp := h.clocked.place
  omega

/-- On the pre-render line the parity is that of the frames completed. -/
theorem OnBeat.oddFrame_of_place (h : OnBeat b t) (hplace : t.place = 339) :
    t.oddFrame = decide (b.done % 2 = 1) := by
  have hlead := h.lead
  have hpassed := h.passed_of_place_beforeSkip hplace
  have hdone : (89342 * b.done + b.passed - b.lead + 89001) / 89342 = b.done := by omega
  rw [h.clocked.oddFrame, hdone]

theorem OnBeat.complete (h : OnBeat b t) (hplace : t.place = 82523) :
    OnBeat { done := b.done + 1, lead := 6818 } t.next := by
  have hlead := h.lead
  have hpassed := h.passed_of_place hplace
  have hskips := Timing.skips_of_place (t := t) (by omega)
  have hnext := h.clocked.next
  have hn : 89342 * b.done + b.passed - b.lead + 1 + t.skips.toNat =
      89342 * (b.done + 1) + 0 - 6818 := by
    rw [hskips, Bool.toNat_false]
    omega
  rw [hn] at hnext
  exact ⟨.inr ⟨rfl, Nat.le_add_left 1 _⟩, hnext, Nat.zero_le _, Nat.zero_le _, .inl rfl⟩

theorem OnBeat.dot (h : OnBeat b t) (hplace : t.place ≠ 82523) :
    OnBeat { b with
      passed := b.passed + 1 + t.skips.toNat
      leftOut := b.leftOut + t.skips.toNat } t.next := by
  have hnext := h.clocked.next
  have hp := h.clocked.place
  have hodd := h.oddFrame_of_place
  have hpassed := h.passed_of_place_beforeSkip
  obtain ⟨hlead, -, hin, hparity, hlate⟩ := h
  have hn : 89342 * b.done + b.passed - b.lead + 1 + t.skips.toNat =
      89342 * b.done + (b.passed + 1 + t.skips.toNat) - b.lead := by
    omega
  rw [hn] at hnext
  cases hs : t.skips with
  | true =>
    have h339 := Timing.place_of_skips hs
    have hodd := hodd h339
    have hpassed := hpassed h339
    rw [Timing.oddFrame_of_skips hs, eq_comm, decide_eq_true_eq] at hodd
    rw [hs] at hnext
    refine ⟨hlead, hnext, ?_, ?_, .inr ?_⟩
    all_goals
      simp only [Bool.toNat_true]
      omega
  | false =>
    rw [hs] at hnext
    refine ⟨hlead, hnext, ?_, hparity, hlate.imp_right fun hl => ?_⟩
    all_goals
      simp only [Bool.toNat_false]
      omega

theorem OnBeat.congr (h : OnBeat b s) (hplace : t.place = s.place)
    (hodd : t.oddFrame = s.oddFrame) : OnBeat b t :=
  ⟨h.lead, ⟨hplace.trans h.clocked.place, hodd.trans h.clocked.oddFrame⟩, h.inFrame, h.parity,
    h.late⟩

end

section
variable {d : Deed β} {past : List (Deed β)}

theorem beat_of_reset (hreset : d.act.isReset = true) : beat (d :: past) = {} := if_pos hreset

theorem beat_of_completes (hreset : d.act.isReset = false) (hcompletes : d.completes = true) :
    beat (d :: past) = { done := (beat past).done + 1, lead := 6818 } := by
  rw [beat, hreset, hcompletes]
  rfl

theorem beat_cons (hreset : d.act.isReset = false) (hcompletes : d.completes = false) :
    beat (d :: past) =
      { beat past with
        passed := (beat past).passed + d.isTick.toNat + d.skips.toNat
        leftOut := (beat past).leftOut + d.skips.toNat } := by
  rw [beat, hreset, hcompletes]
  rfl

theorem beat_still (htick : d.isTick = false) (hreset : d.act.isReset = false)
    (hcompletes : d.completes = false) : beat (d :: past) = beat past := by
  rw [beat_cons hreset hcompletes, Deed.skips, htick]
  rfl

end

theorem Tried.onBeat {past : List (Deed β)} {w : Wired Ppu β} (h : Tried past w) :
    OnBeat (beat past) w.chip.timing := by
  induction h with
  | powerUp bus => exact .start rfl rfl
  | @act past w a _ ih =>
    cases Deed.moves a w with
    | tick htick hreset hcompletes ht =>
      rw [ht]
      by_cases hplace : w.chip.timing.place = 82523
      · rw [beat_of_completes hreset (hcompletes.trans (beq_iff_eq.2 hplace))]
        exact ih.complete hplace
      · rw [beat_cons hreset (hcompletes.trans (beq_false_of_ne hplace)), Deed.skips, htick]
        exact ih.dot hplace
    | reset _ _ hreset ht =>
      rw [ht, beat_of_reset hreset]
      exact .start rfl rfl
    | still htick hcompletes hreset hplace hodd =>
      rw [beat_still htick hreset hcompletes]
      exact ih.congr hplace hodd

/-! ### The entries that the beam has passed -/

/-- Dots from the first of the pre-render line to that which draws entry `i`. -/
def entryPlace (i : Fin (256 * 240)) : Nat := i.val / 256 * 341 + i.val % 256 + 341

theorem pixel?_eq_some (t : Timing) (i : Fin (256 * 240)) :
    t.beam.pixel? = some i ↔ t.place = entryPlace i := by
  have hi := i.isLt
  have hs := t.beam.scanline.isLt
  have hd := t.beam.dot.isLt
  unfold Beam.pixel? Timing.place Beam.index entryPlace
  split
  · rw [Option.some_inj, Fin.ext_iff]
    dsimp only
    omega
  · constructor
    · nofun
    · omega

def WrittenOnce (deeds : List (Deed β)) (i : Fin (256 * 240)) : Prop :=
  ∃ later d earlier, deeds = later ++ d :: earlier ∧ Writes d i ∧
    ∀ e ∈ later ++ earlier, Leaves e i

section
variable {d : Deed β} {deeds past : List (Deed β)} {i : Fin (256 * 240)}

theorem WrittenOnce.of_writes (hd : Writes d i) (h : ∀ e ∈ deeds, Leaves e i) :
    WrittenOnce (d :: deeds) i := ⟨[], d, deeds, rfl, hd, h⟩

theorem WrittenOnce.cons (h : WrittenOnce deeds i) (hd : Leaves d i) :
    WrittenOnce (d :: deeds) i := by
  obtain ⟨later, e, earlier, rfl, hwrites, hleaves⟩ := h
  exact ⟨d :: later, e, earlier, rfl, hwrites, List.forall_mem_cons.2 ⟨hd, hleaves⟩⟩

def Painted (past : List (Deed β)) (i : Fin (256 * 240)) : Prop :=
  if (beat past).lead + entryPlace i < (beat past).passed then WrittenOnce (underWay past) i
  else ∀ d ∈ underWay past, Leaves d i

theorem painted_of_opens (hopens : d.opens = true) (hpassed : (beat (d :: past)).passed = 0)
    (i : Fin (256 * 240)) : Painted (d :: past) i := by
  have hnone : underWay (d :: past) = [] := by simp [underWay, hopens]
  unfold Painted
  rw [if_neg (by omega), hnone]
  exact fun _ he => absurd he List.not_mem_nil

theorem underWay_cons (hopens : d.opens = false) : underWay (d :: past) = d :: underWay past := by
  simp [underWay, hopens]

theorem Painted.still (h : Painted past i) (hopens : d.opens = false)
    (hbeat : beat (d :: past) = beat past) (hd : Leaves d i) : Painted (d :: past) i := by
  unfold Painted at h ⊢
  rw [hbeat, underWay_cons hopens]
  split
  · rw [if_pos ‹_›] at h
    exact h.cons hd
  · rw [if_neg ‹_›] at h
    exact List.forall_mem_cons.2 ⟨hd, h⟩

theorem Painted.dot (h : Painted past i) (hbeat : OnBeat (beat past) d.before.chip.timing)
    (htick : d.isTick = true) (hreset : d.act.isReset = false) (hcompletes : d.completes = false) :
    Painted (d :: past) i := by
  have hopens : d.opens = false := by rw [Deed.opens, hcompletes, hreset]; rfl
  have hreach := reach_of_tick htick i
  have hpixel : d.before.chip.beam.pixel? = some i ↔ d.before.chip.timing.place = entryPlace i :=
    pixel?_eq_some d.before.chip.timing i
  have hlead := hbeat.lead
  have hin := hbeat.inFrame
  have hplace := hbeat.clocked.place
  have hentry : 341 ≤ entryPlace i ∧ entryPlace i < 82096 := by
    have hi := i.isLt
    rw [entryPlace]
    omega
  have hskips : d.skips.toNat = 0 ∨
      d.skips.toNat = 1 ∧ d.before.chip.timing.place = 339 := by
    rw [Deed.skips, htick, Bool.true_and]
    cases hs : d.before.chip.timing.skips with
    | true => exact .inr ⟨rfl, Timing.place_of_skips hs⟩
    | false => exact .inl rfl
  unfold Painted at h ⊢
  rw [beat_cons hreset hcompletes, underWay_cons hopens, htick, Bool.toNat_true]
  dsimp only
  by_cases hi : d.before.chip.timing.place = entryPlace i
  · rw [if_pos (hpixel.2 hi)] at hreach
    rw [if_neg (by omega)] at h
    rw [if_pos (by omega)]
    exact .of_writes hreach h
  · rw [if_neg fun hp => hi (hpixel.1 hp)] at hreach
    -- A dot that is left out draws nothing, so passing it passes no entry.
    by_cases hp : (beat past).lead + entryPlace i < (beat past).passed
    · rw [if_pos hp] at h
      rw [if_pos (by omega)]
      exact h.cons hreach
    · rw [if_neg hp] at h
      rw [if_neg (by omega)]
      exact List.forall_mem_cons.2 ⟨hreach, h⟩

end

theorem Tried.painted {past : List (Deed β)} {w : Wired Ppu β} (h : Tried past w)
    (i : Fin (256 * 240)) : Painted past i := by
  induction h with
  | powerUp bus => exact fun _ he => absurd he List.not_mem_nil
  | @act past w a hpast ih =>
    cases Deed.moves a w with
    | tick htick hreset hcompletes _ =>
      cases hc : (⟨a, w⟩ : Deed β).completes with
      | true =>
        refine painted_of_opens (by rw [Deed.opens, hc]; rfl) ?_ i
        rw [beat_of_completes hreset hc]
      | false => exact ih.dot hpast.onBeat htick hreset hc
    | reset _ _ hreset =>
      refine painted_of_opens (by rw [Deed.opens, hreset, Bool.or_true]) ?_ i
      rw [beat_of_reset hreset]
    | still htick hcompletes hreset =>
      have hopens : (⟨a, w⟩ : Deed β).opens = false := by rw [Deed.opens, hcompletes, hreset]; rfl
      exact ih.still hopens (beat_still htick hreset hcompletes) (leaves_of_not_tick htick i)

/-- Below the picture no entry is written. -/
theorem leaves_of_line {d : Deed β} (h : 240 ≤ d.before.chip.beam.scanline.val)
    (i : Fin (256 * 240)) : Leaves d i := by
  have hpixel : ¬d.before.chip.beam.pixel? = some i := by
    have hnone : ¬(d.before.chip.beam.scanline.val < 240 ∧ d.before.chip.beam.dot.val < 256) := by
      omega
    rw [Beam.pixel?, dif_neg hnone]
    nofun
  cases htick : d.isTick with
  | false => exact leaves_of_not_tick htick i
  | true =>
    have hreach := reach_of_tick htick i
    rwa [if_neg hpixel] at hreach

end
end Ppu
end NesConsole
