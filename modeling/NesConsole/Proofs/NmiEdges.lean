import NesConsole.Proofs.StepRule

/-! Interrupts of the vertical blank are neither lost nor made up: the processor enters the handler
at exactly the instruction boundaries before which the signal has risen since the last entry. -/
namespace NesConsole

def signalSeen : List Moment → Bool
  | [] => false
  | .touched p :: _ | .dot _ p :: _ | .reset p :: _ => p.timing.signal
  | .entered _ :: log => signalSeen log

/-- Whether the signal has risen since the last entry of the handler or reset. -/
def risen : List Moment → Bool
  | [] | .reset _ :: _ | .entered .nmi :: _ => false
  | .entered _ :: log => risen log
  | .touched p :: log | .dot _ p :: log => risen log || (p.timing.signal && !signalSeen log)

/-- Every boundary in the log turns to the handler exactly when the signal had risen. -/
def NmiExact (log : List Moment) : Prop :=
  ∀ later entry earlier, log = later ++ .entered entry :: earlier →
    (entry = .nmi ↔ risen earlier = true)

theorem nmiExact_nil : NmiExact [] := by
  intro later entry earlier h
  cases later <;> cases h

theorem NmiExact.entered {log : List Moment} (h : NmiExact log) (entry : Entry)
    (he : entry = .nmi ↔ risen log = true) : NmiExact (.entered entry :: log) := by
  intro later entry' earlier hl
  cases later with
  | nil =>
    cases hl
    exact he
  | cons m later => exact h later entry' earlier (List.cons.inj hl).2

theorem NmiExact.cons {log : List Moment} (h : NmiExact log) {m : Moment}
    (hm : ∀ entry, m ≠ .entered entry) : NmiExact (m :: log) := by
  intro later entry earlier hl
  cases later with
  | nil => exact absurd (List.cons.inj hl).1 (hm entry)
  | cons m' later => exact h later entry earlier (List.cons.inj hl).2

/-- The latches of both chips say whether the signal has risen. -/
structure Heard (s : Sight) : Prop where
  risen : risen s.log = (s.latched || s.timing.nmiPending)
  seen : signalSeen s.log = s.timing.signal
  blank : s.timing.BlankInPlace
  exact : NmiExact s.log

namespace Heard

theorem touched {s : Sight} (h : Heard s) (p : Ppu) (ht : s.timing.Touch p.timing) :
    Heard (s.touched p) where
  risen := by
    simp only [NesConsole.risen, Sight.touched, h.risen, h.seen, ht.nmiPending, Bool.or_assoc]
  seen := rfl
  blank := by
    intro hv
    simpa only [Sight.touched, ht.beam] using h.blank (ht.vblank hv)
  exact := h.exact.cons nofun

theorem entered {s : Sight} (h : Heard s) (e : Entry) (hq : s.timing.nmiPending = false)
    (he : e = .nmi ↔ s.latched = true) : Heard (s.entered e) where
  risen := by
    have hr := h.risen
    cases e with
    | nmi => simp [NesConsole.risen, Sight.entered, hq]
    | irq | instruction =>
      have hl : s.latched = false := by simpa using he
      simpa [NesConsole.risen, Sight.entered, hq, hl] using hr
  seen := h.seen
  blank := h.blank
  exact := by
    refine h.exact.entered e ?_
    rw [h.risen, hq, Bool.or_false]
    exact he

theorem dotted {s : Sight} (h : Heard s) (p q : Ppu) (hp : s.timing = p.timing)
    (hq : q.timing = p.timing.next) : Heard (s.dotted p q) where
  risen := by
    have hb : p.timing.BlankInPlace := hp ▸ h.blank
    have hr := h.risen
    have hs := h.seen
    rw [hp] at hr hs
    simp only [NesConsole.risen, Sight.dotted, hq, hr, hs, Ppu.Timing.signal_next _ hb]
    simp only [Ppu.Timing.next, Ppu.tick, Bool.or_false, Bool.or_assoc]
    rfl
  seen := rfl
  blank := by
    change q.timing.BlankInPlace
    rw [hq]
    exact Ppu.Timing.blankInPlace_next _ (hp ▸ h.blank)
  exact := h.exact.cons nofun

/-- Cycles and completed frames make no difference. -/
theorem of_same {s t : Sight} (h : Heard s) (hl : t.latched = s.latched)
    (ht : t.timing = s.timing) (hlog : t.log = s.log) : Heard t := by
  obtain ⟨l, n, r, timing, log⟩ := s
  obtain ⟨l', n', r', timing', log'⟩ := t
  cases hl
  cases ht
  cases hlog
  exact ⟨h.risen, h.seen, h.blank, h.exact⟩

/-- Between instructions no interrupt waits in the picture unit: a dot takes it on. -/
theorem stepRule : StepRule (fun m s => Heard s ∧ (s.timing.nmiPending = false ∨ m = 3 ∨ m = 4))
    NmiExact where
  entered _ e h he := ⟨h.1.entered e (h.2.resolve_right (by decide)) he, .inr (.inr rfl)⟩
  waited _ h := ⟨h.1, .inr (.inr rfl)⟩
  touched _ p h ht := ⟨h.1.touched p ht, .inr (.inr rfl)⟩
  ticked _ h := ⟨h.1.of_same rfl rfl rfl, .inr (.inl rfl)⟩
  dotted _ _ p q _ h hp hq :=
    ⟨h.1.dotted p q hp hq, .inl (congrArg Ppu.Timing.nmiPending hq)⟩
  read _ p h ht :=
    ⟨h.1.touched p ht.toTouch, .inl (ht.raisesNone.trans (h.2.resolve_right (by decide)))⟩
  ended _ _ h := h.1.exact

end Heard

section
open WatchedConsole

def Attentive (c : WatchedConsole) : Prop := Heard c.sight ∧ c.picture.nmiPending = false

theorem attentive_wire (cartridge : Cartridge) (journal : Journal) :
    Attentive (.wire cartridge journal) := by
  have hs : (WatchedConsole.wire cartridge journal).sight.timing.signal = false := Bool.and_false _
  exact ⟨⟨rfl, hs.symm, nofun, nmiExact_nil⟩, rfl⟩

theorem leads_step : Leads Attentive step (fun _ => Attentive) fun _ c => NmiExact c.log :=
  Heard.stepRule.leads_step.mono (fun _ hc => ⟨hc.1, .inl hc.2⟩)
    (fun _ _ hc => ⟨hc.1, hc.2.resolve_right (by decide)⟩) fun _ _ hc => hc

theorem leads_stepUntilReady (n : Nat) :
    Leads Attentive (stepUntilReady n) (fun _ => Attentive) fun _ c => NmiExact c.log := by
  induction n with
  | zero => exact .pure fun _ hc => hc
  | succ n ih =>
    intro c hc
    rw [stepUntilReady_succ]
    cases c.frameReady with
    | true => exact hc
    | false => exact Leads.bind leads_step (fun _ => ih) c hc

theorem leads_runFrame :
    Leads Attentive runFrame (fun _ => Attentive) fun _ c => NmiExact c.log := by
  refine .bind (M := fun _ => Attentive) ?_ fun _ => leads_stepUntilReady _
  exact fun c hc => ⟨hc.1.of_same rfl rfl rfl, hc.2⟩

def HeardBus (t : Ppu.Timing) (log : List Moment) : Prop :=
  Heard ⟨false, 0, false, t, log⟩ ∧ t.nmiPending = false

theorem heardBus_reset (p : Ppu) {log : List Moment} (h : NmiExact log) :
    HeardBus p.reset.timing (.reset p.reset :: log) :=
  ⟨⟨rfl, rfl, nofun, h.cons nofun⟩, rfl⟩

theorem leads_reset : Leads Attentive reset (fun _ => Attentive) fun _ c => NmiExact c.log := by
  have hJ : WatchedBus.TouchKeeps Ppu.Timing.ReadTouch HeardBus := fun t p log h ht =>
    ⟨Heard.touched h.1 p ht.toTouch, ht.raisesNone.trans h.2⟩
  refine .bind (M := fun _ c => WatchedBus.Holds HeardBus c.machine.bus)
    (fun c hc => heardBus_reset c.picture hc.1.exact) fun _ => ?_
  refine .bind (M := fun _ c => WatchedBus.Holds HeardBus c.machine.bus ∧ c.cpu.nmiPending = false)
    ?_ fun _ => ?_
  · intro c hc
    have hr := Cpu.leads_reset hJ c.cpu.cycles c.machine ⟨hc, rfl⟩
    dsimp only [onMachine]
    cases hx : Cpu.reset c.machine <;> rw [hx] at hr
    · exact ⟨hr.1, hr.2.2⟩
    · exact hr.1.exact
  · intro c ⟨⟨hb, hq⟩, hl⟩
    exact ⟨Heard.of_same hb hl rfl rfl, hq⟩

theorem leads_call (call : HostCall) :
    Leads Attentive (WatchedConsole.call call) (fun _ => Attentive)
      fun _ c => NmiExact c.log := by
  cases call with
  | reset => exact leads_reset
  | step => exact leads_step
  | runFrame => exact leads_runFrame
  | hold pad buttons =>
    intro c hc
    have hp : (c.hold pad buttons).picture = c.picture := c.picture_hold pad buttons
    change Attentive (c.hold pad buttons)
    refine ⟨?_, ?_⟩
    · change Heard ⟨c.cpu.nmiPending, c.cpu.cycles, c.frameReady,
        (c.hold pad buttons).picture.timing, c.log⟩
      rw [hp]
      exact hc.1
    · rw [hp]
      exact hc.2

theorem leads_calls (calls : List HostCall) :
    Leads Attentive (WatchedConsole.calls calls) (fun _ => Attentive)
      fun _ c => NmiExact c.log := by
  induction calls with
  | nil => exact .pure fun _ hc => hc
  | cons call calls ih => exact .bind (leads_call call) fun _ => ih

/-- However the host drives a console, watching changes nothing, and at each instruction boundary
the processor turns to the handler exactly when the signal has risen since it last did, or since
the last reset. -/
theorem handler_entered_iff_risen (cartridge : Cartridge) (journal : Journal)
    (calls : List HostCall) :
    Alike (fun w c => w.console = c ∧ NmiExact w.log)
      (WatchedConsole.calls calls (.wire cartridge journal))
      (Console.calls calls (.wire cartridge journal)) := by
  have hgoes : Goes Attentive (WatchedConsole.calls calls) fun w => NmiExact w.log :=
    (leads_calls calls).mono (fun _ hw => hw) (fun _ _ hw => hw.1.exact) fun _ _ hw => hw
  exact (agree_calls calls).alike_of_leads hgoes (attentive_wire cartridge journal) rfl

end
end NesConsole
