import NesConsole.Ppu.Dot
import NesConsole.Ppu.Interface
import NesConsole.Proofs.Outcomes

/-! A dot as a sequence of stages, and what dots and register accesses do to the timing of the
picture unit: the beam, the flag of the vertical blank, and what raises interrupts. -/
namespace NesConsole
namespace Beam

def index (b : Beam) : Nat := b.scanline.val * 341 + b.dot.val

theorem index_lt (b : Beam) : b.index < 89342 := by
  have hs := b.scanline.isLt
  have hd := b.dot.isLt
  rw [index]
  omega

theorem index_inj {b c : Beam} : b.index = c.index ↔ b = c := by
  constructor
  · intro h
    rcases b with ⟨s, d⟩
    rcases c with ⟨s', d'⟩
    have hd := d.isLt
    have hd' := d'.isLt
    simp only [index] at h
    simp only [mk.injEq, Fin.ext_iff]
    omega
  · intro he
    cases he
    rfl

theorem beq_eq (b c : Beam) : (b == c) = (b.index == c.index) := by
  rw [Bool.eq_iff_iff, beq_iff_eq, beq_iff_eq, index_inj]

/-- The dot after which an odd frame that draws leaves out the last of the line. -/
def beforeSkip : Beam := ⟨preRenderLine, 339⟩

@[simp] theorem index_beforeSkip : beforeSkip.index = 89340 := rfl
@[simp] theorem index_vblankStart : vblankStart.index = 82182 := rfl
@[simp] theorem index_flagsEnd : flagsEnd.index = 89002 := rfl

theorem next_of_lt {b : Beam} (h : b.dot.val < 340) :
    b.next.scanline = b.scanline ∧ b.next.dot.val = b.dot.val + 1 := by
  have h340 : b.dot ≠ 340 := fun he => by
    have : b.dot.val = 340 := congrArg Fin.val he
    omega
  have hone : (1 : Fin 341).val = 1 := rfl
  refine ⟨if_neg h340, ?_⟩
  rw [next, Fin.val_add, hone]
  omega

theorem next_of_last {b : Beam} (h : b.dot.val = 340) :
    b.next.scanline.val = (b.scanline.val + 1) % 262 ∧ b.next.dot.val = 0 := by
  have h340 : b.dot = 340 := Fin.ext h
  have hone : (1 : Fin 262).val = 1 := rfl
  refine ⟨?_, ?_⟩
  · rw [next, if_pos h340, Fin.val_add, hone]
  · rw [next, h340]
    rfl

theorem index_next (b : Beam) : b.next.index = (b.index + 1) % 89342 := by
  have hs := b.scanline.isLt
  have hd := b.dot.isLt
  have h340 : b.dot = 340 ↔ b.dot.val = 340 := Fin.ext_iff
  have hline : (1 : Fin 262).val = 1 := rfl
  have hdot : (1 : Fin 341).val = 1 := rfl
  simp only [next, index, Fin.val_add, hdot]
  split
  · rw [Fin.val_add, hline]
    omega
  · omega

end Beam

namespace Ppu
section
variable {β : Type} [Bus β]

def spriteStage (beam : Beam) : EStateM BusError (Wired Ppu β) Unit :=
  if beam.onVisibleLine && beam.dot == 0 then prepareSprites else pure ()

def fetchStage (rendering : Bool) (beam : Beam) : EStateM BusError (Wired Ppu β) Unit :=
  if rendering && beam.onRenderLine then fetchBackground else pure ()

def shiftBackground (p : Ppu) : Ppu := { p with background := p.background.shift }

def shiftStage (rendering : Bool) (beam : Beam) : EStateM BusError (Wired Ppu β) Unit :=
  if rendering && beam.onRenderLine && decide (beam.dot.val < 256) then
    Wired.update shiftBackground
  else pure ()

def drawStages (rendering : Bool) (beam : Beam) : EStateM BusError (Wired Ppu β) Unit := do
  spriteStage beam
  fetchStage rendering beam
  renderPixel
  shiftStage rendering beam

theorem step_stages : (step : EStateM BusError (Wired Ppu β) Tick) =
    Wired.look tick >>= fun t => Wired.update beginDot >>= fun _ =>
      Wired.look (·.mask.rendering) >>= fun rendering => Wired.look (·.beam) >>= fun beam =>
        drawStages rendering beam >>= fun _ => Wired.update (advance rendering) >>= fun _ =>
          pure t := by
  unfold step drawStages spriteStage fetchStage shiftStage
  congr 1; funext t
  congr 1; funext _
  congr 1; funext rendering
  congr 1; funext beam
  split <;> split <;> split <;> simp only [bind_assoc, pure_bind] <;> rfl

end

structure Timing where
  control : Control
  mask : Mask
  vblank : Bool
  nmiPending : Bool
  beam : Beam
  oddFrame : Bool
  frames : Nat

def timing (p : Ppu) : Timing :=
  ⟨p.control, p.mask, p.status.vblank, p.nmiPending, p.beam, p.oddFrame, p.frames⟩

@[simp] theorem beginDot_mask (p : Ppu) : (beginDot p).mask = p.mask := by
  simp only [beginDot]
  split
  · rfl
  · split <;> rfl

section
variable {β τ : Type} [Bus β] {f : Ppu → τ}

theorem keepsView_prepareSprites (hsprites : ∀ p s, f { p with sprites := s } = f p)
    (hoverflow : ∀ p, f { p with status := { p.status with spriteOverflow := true } } = f p) :
    KeepsView f (prepareSprites : EStateM BusError (Wired Ppu β) Unit) := by
  refine .bind (.look _) fun rendering => .ite ?_ (.update fun p => hsprites p _)
  refine .bind (.look _) fun p => .bind (.onPart _ fun s p => hsprites p s) fun overflow => ?_
  exact .ite (.update hoverflow) (.pure _)

theorem keepsView_fetchTile (f : Ppu → τ) :
    KeepsView f (fetchTile : EStateM BusError (Wired Ppu β) Tile) := by
  refine .bind (.look _) fun v => ?_
  refine .bind (.read v.tileAddress) fun name => ?_
  refine .bind (.read v.attributeAddress) fun palettes => ?_
  refine .bind (.look _) fun table => ?_
  refine .bind (.read _) fun low => ?_
  exact .bind (.read _) fun high => .pure _

theorem keepsView_fetchBackground
    (hfetch : ∀ p q v, f { p with background := q, v := v } = f p) :
    KeepsView f (fetchBackground : EStateM BusError (Wired Ppu β) Unit) := by
  refine .bind (.look _) fun beam => .ite ?_ (.ite ?_ (.ite ?_ (.pure _)))
  · exact .bind (keepsView_fetchTile _) fun _ => .update fun p => hfetch p _ _
  · exact .update fun p => hfetch p p.background _
  · exact .bind (keepsView_fetchTile _) fun _ => .update fun p => hfetch p _ _

section
variable (hhit : ∀ p, f { p with status := { p.status with spriteZeroHit := true } } = f p)
include hhit

omit [Bus β] in
theorem keepsView_chooseCell (x : Nat) :
    KeepsView f (chooseCell x : EStateM BusError (Wired Ppu β) UInt16) := by
  refine .bind (.look _) fun rendering => .ite ?_ (.look _)
  refine .bind (.look _) fun hit => .ite ?_ (.look _)
  exact .bind (.update hhit) fun _ => .look _

theorem keepsView_renderPixel (hdraw : ∀ p i entry, f (drawPixel i entry p) = f p) :
    KeepsView f (renderPixel : EStateM BusError (Wired Ppu β) Unit) := by
  refine .bind (.look _) fun beam => ?_
  split
  · exact .pure _
  · exact .bind (keepsView_chooseCell hhit _) fun _ => .bind (.read _) fun _ =>
      .update fun p => hdraw p _ _

end

theorem keepsView_drawStages (rendering : Bool) (beam : Beam) :
    KeepsView timing (drawStages rendering beam : EStateM BusError (Wired Ppu β) Unit) :=
  .bind (.ite (keepsView_prepareSprites (fun _ _ => rfl) fun _ => rfl) (.pure _)) fun _ =>
    .bind (.ite (keepsView_fetchBackground fun _ _ _ => rfl) (.pure _)) fun _ =>
      .bind (keepsView_renderPixel (fun _ => rfl) fun _ _ _ => rfl) fun _ =>
        .ite (.update fun _ => rfl) (.pure _)

theorem timing_advance (rendering : Bool) {p q : Ppu} (h : timing p = timing q) :
    timing (advance rendering p) = timing (advance rendering q) := by
  simp only [timing, Timing.mk.injEq] at h
  obtain ⟨hc, hm, hv, hn, hb, ho, hf⟩ := h
  simp only [advance, hb, ho]
  split <;> simp [timing, *]

theorem step_apply (w : Wired Ppu β) : step w =
    (drawStages w.chip.mask.rendering (beginDot w.chip).beam >>= fun _ =>
      Wired.update (advance w.chip.mask.rendering) >>= fun _ => pure w.chip.tick)
        ⟨beginDot w.chip, w.bus⟩ := by
  rw [step_stages, ← beginDot_mask]
  rfl

/-- What a dot reports and where it leaves the timing. -/
theorem step_timing {w w' : Wired Ppu β} {t : Tick} (h : step w = .ok t w') :
    t = w.chip.tick ∧
      timing w'.chip = timing (advance w.chip.mask.rendering (beginDot w.chip)) := by
  have hd := keepsView_drawStages (β := β) w.chip.mask.rendering (beginDot w.chip).beam
    _ ⟨beginDot w.chip, w.bus⟩ rfl
  rw [step_apply] at h
  obtain ⟨_, v, hx, hend⟩ := of_bind_ok h
  rw [hx] at hd
  cases hend
  exact ⟨rfl, timing_advance _ hd⟩

end

def Timing.signal (t : Timing) : Bool := t.control.raisesNmi && t.vblank

def Timing.BlankInPlace (t : Timing) : Prop :=
  t.vblank = true →
    Beam.vblankStart.index < t.beam.index ∧ t.beam.index ≤ Beam.flagsEnd.index

theorem timing_beginDot (p : Ppu) : (beginDot p).timing = { p.timing with
    vblank := p.beam == .vblankStart || (p.status.vblank && p.beam != .flagsEnd)
    nmiPending := false
    frames := p.frames + (p.beam == .vblankStart).toNat } := by
  simp only [beginDot]
  by_cases hs : p.beam = .vblankStart
  · simp [timing, hs]
  · by_cases he : p.beam = .flagsEnd
    · have hne : Beam.flagsEnd ≠ Beam.vblankStart := by decide
      simp [timing, he, hne]
    · have hs' : (p.beam == .vblankStart) = false := beq_false_of_ne hs
      have he' : (p.beam != .flagsEnd) = true := bne_iff_ne.2 he
      simp [timing, hs, he, hs', he']

def Timing.skips (t : Timing) : Bool :=
  t.oddFrame && t.mask.rendering && t.beam == .beforeSkip

def Timing.next (t : Timing) : Timing where
  control := t.control
  mask := t.mask
  vblank := t.beam == .vblankStart || (t.vblank && t.beam != .flagsEnd)
  nmiPending := false
  beam := if t.skips then ⟨0, 0⟩ else t.beam.next
  oddFrame := t.oddFrame ^^ (t.skips || t.beam.index == 89341)
  frames := t.frames + (t.beam == .vblankStart).toNat

theorem timing_advance_beginDot (p : Ppu) :
    (advance p.mask.rendering (beginDot p)).timing = p.timing.next := by
  have hl : (p.beam == ⟨Beam.preRenderLine, 340⟩) = (p.beam.index == 89341) := Beam.beq_eq _ _
  have hk : (p.oddFrame && p.mask.rendering && p.beam == ⟨Beam.preRenderLine, 339⟩) =
      p.timing.skips := rfl
  have hb := timing_beginDot p
  simp only [timing, Timing.mk.injEq] at hb
  obtain ⟨hc, -, hv, hn, hbeam, ho, hf⟩ := hb
  rw [advance, hbeam, ho, hl, hk]
  unfold Timing.next
  cases hs : p.timing.skips with
  | false => simp [timing, hc, hv, hn, hf]
  | true =>
    have hodd : p.oddFrame = true := by
      simp only [Timing.skips, Bool.and_eq_true] at hs
      exact hs.1.1
    simp [timing, hc, hv, hn, hf, hodd]

theorem Timing.next_beam_index (t : Timing) :
    t.next.beam.index = if t.skips then 0 else (t.beam.index + 1) % 89342 := by
  simp only [next]
  split
  · rfl
  · exact Beam.index_next _

theorem Timing.index_of_skips {t : Timing} (h : t.skips = true) : t.beam.index = 89340 := by
  simp only [skips, Bool.and_eq_true, beq_iff_eq] at h
  rw [h.2, Beam.index_beforeSkip]

theorem Timing.blankInPlace_next (t : Timing) (h : t.BlankInPlace) : t.next.BlankInPlace := by
  intro hv
  rw [next_beam_index]
  simp only [next, Beam.beq_eq, bne, Bool.or_eq_true, Bool.and_eq_true, Bool.not_eq_true',
    beq_iff_eq, beq_eq_false_iff_ne, Beam.index_vblankStart, Beam.index_flagsEnd] at hv ⊢
  have hs : t.skips = true → t.beam.index = 89340 := index_of_skips
  rcases hv with hv | ⟨hv, hne⟩
  · split
    · have := hs ‹_›
      omega
    · omega
  · have hp := h hv
    simp only [Beam.index_vblankStart, Beam.index_flagsEnd] at hp
    split
    · have := hs ‹_›
      omega
    · omega

/-- The start of the blank is the one dot that can raise the signal. -/
theorem Timing.signal_next (t : Timing) (h : t.BlankInPlace) :
    (t.next.signal && !t.signal) = (t.beam == .vblankStart && t.control.raisesNmi) := by
  have hblank : t.beam = .vblankStart → t.vblank = false := by
    intro hb
    cases hv : t.vblank with
    | false => rfl
    | true =>
      have hp := h hv
      rw [hb] at hp
      exact absurd hp.1 (Nat.lt_irrefl _)
  simp only [signal, next]
  cases hb : t.beam == .vblankStart with
  | true => simp [hblank (beq_iff_eq.1 hb)]
  | false => cases t.control.raisesNmi <;> cases t.vblank <;> simp

structure Timing.Touch (s t : Timing) : Prop where
  beam : t.beam = s.beam
  oddFrame : t.oddFrame = s.oddFrame
  frames : t.frames = s.frames
  vblank : t.vblank = true → s.vblank = true
  nmiPending : t.nmiPending = (s.nmiPending || (t.signal && !s.signal))

structure Timing.ReadTouch (s t : Timing) : Prop extends s.Touch t where
  raisesNone : t.nmiPending = s.nmiPending

theorem Timing.ReadTouch.of_eq {s t : Timing} (h : t = s) : s.ReadTouch t := by
  subst h
  exact ⟨⟨rfl, rfl, rfl, id, by simp⟩, rfl⟩

section
variable {β : Type} [Bus β]

theorem keepsView_readData {τ : Type} {f : Ppu → τ}
    (hbuffer : ∀ p byte, f { p with readBuffer := byte } = f p)
    (haddress : ∀ p v, f { p with v := v } = f p) :
    KeepsView f (readData : EStateM BusError (Wired Ppu β) UInt8) := by
  refine .bind (.look _) fun address => .ite ?_ ?_
  · refine .bind (.read _) fun below => .bind (.update fun p => hbuffer p _) fun _ => ?_
    exact .bind (.read _) fun byte => .bind (.update fun p => haddress p _) fun _ => .pure _
  · refine .bind (.read _) fun fresh => .bind (.look _) fun buffered => ?_
    exact .bind (.update fun p => (haddress _ _).trans (hbuffer p _)) fun _ => .pure _

abbrev Touches (T : Timing → Timing → Prop) (x : EStateM BusError (Wired Ppu β) α) : Prop :=
  ∀ s, Goes (fun w => w.chip.timing = s) x fun w => T s w.chip.timing

omit [Bus β] in
theorem Touches.of_keepsView {T : Timing → Timing → Prop} {α : Type}
    {x : EStateM BusError (Wired Ppu β) α} (h : KeepsView timing x)
    (hT : ∀ s t, s.ReadTouch t → T s t) : Touches T x :=
  fun s => (h s).mono (fun _ hw => hw) (fun _ _ hw => hT _ _ (.of_eq hw))
    fun _ _ hw => hT _ _ (.of_eq hw)

theorem touches_readRegister (address : UInt16) :
    Touches Timing.ReadTouch (readRegister address : EStateM BusError (Wired Ppu β) UInt8) := by
  unfold readRegister
  split
  · intro _ w he
    cases he
    exact ⟨⟨rfl, rfl, rfl, nofun, by simp [timing, statusRead, Timing.signal]⟩, rfl⟩
  · exact .of_keepsView (.look _) fun _ _ h => h
  · exact .of_keepsView (keepsView_readData (fun _ _ => rfl) fun _ _ => rfl) fun _ _ h => h
  · exact .of_keepsView (.look _) fun _ _ h => h

theorem timing_writeScroll (data : UInt8) (p : Ppu) : (p.writeScroll data).timing = p.timing := by
  simp only [writeScroll]
  split <;> rfl

theorem timing_writeAddress (data : UInt8) (p : Ppu) :
    (p.writeAddress data).timing = p.timing := by
  simp only [writeAddress]
  split <;> rfl

omit [Bus β] in
theorem timing_writeObjects (block : ObjectMemory) (p : Ppu) :
    (p.writeObjects block).timing = p.timing := by
  simp only [timing, writeObjects]

theorem touches_writeRegister (address : UInt16) (data : UInt8) :
    Touches Timing.Touch (writeRegister address data : EStateM BusError (Wired Ppu β) Unit) := by
  have hlatch : KeepsView (ε := BusError) (β := β) timing
      (Wired.update fun p => { p with latch := data }) := .update fun _ => rfl
  have htouch : ∀ s t : Timing, s.ReadTouch t → s.Touch t := fun _ _ h => h.toTouch
  unfold writeRegister
  split
  · intro _ w he
    cases he
    refine ⟨rfl, rfl, rfl, id, ?_⟩
    simp only [timing, writeControl, Timing.signal]
    cases w.chip.control.raisesNmi <;> cases w.chip.status.vblank <;> simp
  · intro _ w he
    cases he
    refine ⟨rfl, rfl, rfl, id, ?_⟩
    change w.chip.nmiPending =
      (w.chip.nmiPending || (w.chip.timing.signal && !w.chip.timing.signal))
    simp
  · exact .of_keepsView (.bind hlatch fun _ => .pure _) htouch
  · exact .of_keepsView (.bind hlatch fun _ => .update fun _ => rfl) htouch
  · exact .of_keepsView (.bind hlatch fun _ => .update fun _ => rfl) htouch
  · exact .of_keepsView (.bind hlatch fun _ => .update (timing_writeScroll data)) htouch
  · exact .of_keepsView (.bind hlatch fun _ => .update (timing_writeAddress data)) htouch
  · exact .of_keepsView (.bind hlatch fun _ => .bind (.look _) fun _ => .bind (.write _ _) fun _ =>
      .update fun _ => rfl) htouch

end
end Ppu
end NesConsole
