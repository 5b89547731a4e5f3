import NesConsole.Proofs.IdleLoop

/-! The clock of the frames. Dots come three to a cycle, and with the dots that odd frames leave
out they make frames of 89342; so the cycles at which frames complete are known. -/
namespace NesConsole

namespace Ppu.Timing

/-- Dots from the first of the pre-render line. -/
def place (t : Timing) : Nat := (t.beam.index + 341) % 89342

theorem place_lt (t : Timing) : t.place < 89342 := Nat.mod_lt _ (by decide)

theorem beam_eq_vblankStart (t : Timing) : (t.beam == .vblankStart) = (t.place == 82523) := by
  have hb := t.beam.index_lt
  rw [Beam.beq_eq, Beam.index_vblankStart, Bool.eq_iff_iff, beq_iff_eq, beq_iff_eq, place]
  omega

theorem place_of_skips {t : Timing} (h : t.skips = true) : t.place = 339 := by
  rw [place, index_of_skips h]

theorem skips_of_place {t : Timing} (h : t.place ≠ 339) : t.skips = false :=
  Bool.eq_false_iff.2 fun hs => h (place_of_skips hs)

theorem oddFrame_of_skips {t : Timing} (h : t.skips = true) : t.oddFrame = true := by
  simp only [skips, Bool.and_eq_true] at h
  exact h.1.1

theorem place_next (t : Timing) :
    t.next.place = (t.place + 1 + t.skips.toNat) % 89342 := by
  have hb := t.beam.index_lt
  rw [place, next_beam_index]
  cases hs : t.skips with
  | true =>
    rw [place_of_skips hs]
    rfl
  | false =>
    simp only [Bool.false_eq_true, if_false, place, Bool.toNat_false]
    omega

theorem oddFrame_next (t : Timing) :
    t.next.oddFrame = (t.oddFrame ^^ (t.skips || t.place == 340)) := by
  have hb := t.beam.index_lt
  have hlast : (t.beam.index == 89341) = (t.place == 340) := by
    rw [Bool.eq_iff_iff, beq_iff_eq, beq_iff_eq, place]
    omega
  rw [← hlast]
  rfl

theorem frames_next (t : Timing) : t.next.frames = t.frames + (t.place == 82523).toNat := by
  rw [← beam_eq_vblankStart]
  rfl

theorem Touch.place {s t : Timing} (h : s.Touch t) : t.place = s.place := by
  rw [Timing.place, Timing.place, h.beam]

/-- The beam and the parity of the frame, `n` dots after a start, those left out among them. The
parity turns where the beam leaves the pre-render line. -/
structure Clocked (t : Timing) (n : Nat) : Prop where
  place : t.place = n % 89342
  oddFrame : t.oddFrame = decide ((n + 89001) / 89342 % 2 = 1)

theorem Clocked.next {t : Timing} {n : Nat} (h : t.Clocked n) :
    t.next.Clocked (n + 1 + t.skips.toNat) := by
  obtain ⟨hp, ho⟩ := h
  refine ⟨?_, ?_⟩
  · rw [place_next, hp]
    omega
  rw [oddFrame_next]
  cases hs : t.skips with
  | true =>
    have h339 := place_of_skips hs
    rw [oddFrame_of_skips hs] at ho ⊢
    have hodd : (n + 89001) / 89342 % 2 = 1 := of_decide_eq_true ho.symm
    simp only [Bool.true_or, Bool.xor_self, Bool.toNat_true]
    rw [eq_comm, decide_eq_false_iff_not]
    omega
  | false =>
    rw [Bool.false_or, Bool.toNat_false, ho]
    by_cases hl : t.place = 340
    · rw [beq_iff_eq.2 hl, Bool.xor_true, ← decide_not]
      congr 1
      rw [eq_iff_iff]
      omega
    · rw [beq_false_of_ne hl, Bool.xor_false]
      congr 1
      rw [eq_iff_iff]
      omega

end Ppu.Timing

theorem Ppu.frameComplete_eq_place (p : Ppu) :
    p.tick.frameComplete = (p.timing.place == 82523) := by
  rw [← Ppu.Timing.beam_eq_vblankStart]
  rfl

def dotsIn : List Moment → Nat
  | [] => 0
  | .dot _ _ :: log => dotsIn log + 1
  | _ :: log => dotsIn log

/-- The odd frames whose dot 339 of the pre-render line was processed with rendering on. -/
def shortFrames : List Moment → Nat
  | [] => 0
  | .dot p _ :: log => shortFrames log +
    (p.oddFrame && p.mask.rendering && p.beam == ⟨Beam.preRenderLine, 339⟩).toNat
  | _ :: log => shortFrames log

/-- Dots since the console was reset, those left out among them. -/
def elapsed (log : List Moment) : Nat := dotsIn log + shortFrames log

theorem shortFrames_dot (p q : Ppu) (log : List Moment) :
    shortFrames (.dot p q :: log) = shortFrames log + p.timing.skips.toNat := rfl

theorem elapsed_dot (p q : Ppu) (log : List Moment) :
    elapsed (.dot p q :: log) = elapsed log + 1 + p.timing.skips.toNat := by
  rw [elapsed, shortFrames_dot, dotsIn, elapsed]
  omega

section
variable {log : List Moment} {p q : Ppu} (hplace : p.timing.place = elapsed log % 89342)
include hplace

/-- A dot passes its place, and the next too where that is left out. -/
theorem elapsed_dot_or : elapsed (.dot p q :: log) = elapsed log + 1 ∨
    elapsed (.dot p q :: log) = elapsed log + 2 ∧ elapsed log % 89342 = 339 := by
  rw [elapsed_dot]
  cases hs : p.timing.skips with
  | true => exact .inr ⟨rfl, hplace.symm.trans (Ppu.Timing.place_of_skips hs)⟩
  | false => exact .inl rfl

/-- A frame ends where vertical blank starts, which no dot leaves out. -/
theorem completions_dot : (elapsed (.dot p q :: log) + 6818) / 89342 =
    (elapsed log + 6818) / 89342 + (p.timing.place == 82523).toNat := by
  have helapsed := elapsed_dot_or (q := q) hplace
  by_cases hend : p.timing.place = 82523
  · rw [beq_iff_eq.2 hend, Bool.toNat_true]
    omega
  · rw [beq_false_of_ne hend, Bool.toNat_false]
    omega

end

structure OnClock (t : Ppu.Timing) (log : List Moment) : Prop where
  place : t.place = elapsed log % 89342
  frames : t.frames = (elapsed log + 6818) / 89342
  oddFrame : t.oddFrame = decide ((elapsed log + 89001) / 89342 % 2 = 1)
  short : shortFrames log ≤ (elapsed log + 89001) / 89342 / 2

theorem OnClock.dot {p q : Ppu} {log : List Moment} (h : OnClock p.timing log)
    (hq : q.timing = p.timing.next) : OnClock q.timing (.dot p q :: log) := by
  obtain ⟨hp, hf, ho, hk⟩ := h
  have hnext := Ppu.Timing.Clocked.next ⟨hp, ho⟩
  rw [← elapsed_dot p q] at hnext
  rw [hq]
  refine ⟨hnext.place, ?_, hnext.oddFrame, ?_⟩
  · rw [Ppu.Timing.frames_next, hf, completions_dot hp]
  · rw [shortFrames_dot, elapsed_dot]
    cases hs : p.timing.skips with
    | true =>
      have h339 := Ppu.Timing.place_of_skips hs
      rw [Ppu.Timing.oddFrame_of_skips hs] at ho
      have hodd : (elapsed log + 89001) / 89342 % 2 = 1 := of_decide_eq_true ho.symm
      rw [Bool.toNat_true]
      omega
    | false =>
      rw [Bool.toNat_false]
      omega

theorem OnClock.touch {t : Ppu.Timing} {p : Ppu} {log : List Moment} (h : OnClock t log)
    (ht : t.Touch p.timing) : OnClock p.timing (.touched p :: log) where
  place := ht.place.trans h.place
  frames := ht.frames.trans h.frames
  oddFrame := ht.oddFrame.trans h.oddFrame
  short := h.short

/-! No frame takes more steps than its loop is allowed, whatever state it starts from. -/

def Ppu.Timing.left (t : Ppu.Timing) : Nat := (171865 - t.place) % 89342 + 1

theorem Ppu.Timing.left_le (t : Ppu.Timing) : t.left ≤ 89342 := Nat.mod_lt _ (by decide)

theorem Ppu.Timing.Touch.left {s t : Ppu.Timing} (h : s.Touch t) : t.left = s.left := by
  rw [Ppu.Timing.left, Ppu.Timing.left, h.place]

theorem Ppu.Timing.left_next (t : Ppu.Timing) (h : t.place ≠ 82523) : t.next.left < t.left := by
  have hp := t.place_lt
  rw [left, left, place_next]
  cases hs : t.skips with
  | true =>
    have h339 := place_of_skips hs
    rw [h339]
    decide
  | false =>
    rw [Bool.toNat_false]
    omega

/-- A frame is ready, or the dots until then are at most `L`, less those of the step under way. -/
def Nearing (L m : Nat) (s : Sight) : Prop := s.ready = true ∨ s.timing.left + (3 - m) ≤ L

theorem nearing_stepRule (L : Nat) : StepRule (Nearing L) fun _ => True where
  entered _ _ h _ := h
  waited _ h := h
  touched _ _ h ht := by
    refine h.imp_right fun hl => ?_
    rw [Sight.touched, ht.left]
    exact hl
  ticked _ h := h
  dotted m s p q hm h hp hq := by
    rcases h with hr | hl
    · exact .inl (by rw [Sight.dotted, hr, Bool.true_or])
    · by_cases hv : p.timing.place = 82523
      · have hb : p.tick.frameComplete = true := by
          rw [Ppu.frameComplete_eq_place, beq_iff_eq.2 hv]
        exact .inl (by rw [Sight.dotted, hb, Bool.or_true])
      · refine .inr ?_
        have hn := Ppu.Timing.left_next _ hv
        rw [hp] at hl
        change q.timing.left + (3 - m) ≤ L
        rw [hq]
        omega
  read _ _ h ht := by
    refine h.imp_right fun hl => ?_
    rw [Sight.touched, ht.toTouch.left]
    exact hl
  ended _ _ _ := trivial

namespace Console

/-- The loop of a frame, with nothing to bound it. -/
inductive Loop : Nat → Console → EStateM.Result ConsoleError Console Unit → Prop
  | done {c : Console} : c.frameReady = true → Loop 0 c (.ok () c)
  | fault {c d : Console} {e : ConsoleError} :
    c.frameReady = false → step c = .error e d → Loop 1 c (.error e d)
  | again {n : Nat} {c d : Console} {r : EStateM.Result ConsoleError Console Unit} :
    c.frameReady = false → step c = .ok () d → Loop n d r → Loop (n + 1) c r

def watched (c : Console) : WatchedConsole where
  machine := ⟨c.cpu, ⟨c.bus, []⟩⟩
  frameReady := c.frameReady

theorem step_nearer {c d : Console} (h : step c = .ok () d) :
    d.frameReady = true ∨ d.picture.timing.left + 3 ≤ c.picture.timing.left := by
  have ha := WatchedConsole.agree_step c.watched c rfl
  have hl := (nearing_stepRule c.picture.timing.left).leads_step c.watched (.inr (Nat.le_refl _))
  rw [h] at ha
  cases hx : WatchedConsole.step c.watched <;> rw [hx] at ha hl
  case ok a w =>
    obtain ⟨-, rfl⟩ := ha
    exact hl
  case error => exact ha.elim

theorem stepUntilReady_loop (n : Nat) (c : Console)
    (h : c.frameReady = true ∨ c.picture.timing.left ≤ 3 * n) :
    ∃ k, k ≤ n ∧ Loop k c (stepUntilReady n c) := by
  induction n generalizing c with
  | zero =>
    have hr : c.frameReady = true := h.resolve_right (by rw [Ppu.Timing.left]; omega)
    exact ⟨0, Nat.le_refl 0, .done hr⟩
  | succ n ih =>
    rw [stepUntilReady_succ]
    cases hr : c.frameReady with
    | true => exact ⟨0, Nat.zero_le _, .done hr⟩
    | false =>
      have hl : c.picture.timing.left ≤ 3 * (n + 1) := h.resolve_left (by rw [hr]; nofun)
      change ∃ k, k ≤ n + 1 ∧ Loop k c ((step >>= fun _ => stepUntilReady n) c)
      cases hx : step c with
      | error e d =>
        rw [bind_error hx]
        exact ⟨1, by omega, .fault hr hx⟩
      | ok a d =>
        obtain ⟨k, hk, hloop⟩ := ih d ((step_nearer hx).imp_right fun hd => by omega)
        rw [bind_ok hx]
        exact ⟨k + 1, Nat.succ_le_succ hk, .again hr hx hloop⟩

theorem runFrame_loop (c : Console) :
    ∃ k, k ≤ longestFrame ∧ Loop k { c with frameReady := false } (runFrame c) := by
  refine stepUntilReady_loop longestFrame { c with frameReady := false } (.inr ?_)
  exact Nat.le_trans (Ppu.Timing.left_le _) (by decide)

theorem Loop.ready {n : Nat} {c d : Console} (h : Loop n c (.ok () d)) : d.frameReady = true := by
  generalize hr : EStateM.Result.ok () d = r at h
  induction h with
  | done h =>
    cases hr
    exact h
  | fault => cases hr
  | again _ _ _ ih => exact ih hr

end Console

/-! A frame on the clock. -/

/-- Dots that a step in phase `m` still owes its cycle. -/
def owed (m : Nat) : Nat := if m ≤ 3 then m else 0

/-- What holds from the end of a frame to that of the next: `k` frames were short and `frames`
completed when it began. -/
structure Framing (k frames : Nat) (m : Nat) (s : Sight) : Prop where
  clock : OnClock s.timing s.log
  cycles : dotsIn s.log + owed m = 3 * s.cycles
  completed : (elapsed s.log + 6818) / 89342 = frames + s.ready.toNat
  ready : s.ready = true → (elapsed s.log + 6818) % 89342 + m < 3
  least : k ≤ shortFrames s.log
  most : shortFrames s.log + frames ≤ k + (elapsed s.log + 89002) / 89342

theorem owed_succ {m : Nat} (hm : m < 3) : owed (m + 1) = owed m + 1 := by
  rw [owed, owed, if_pos (Nat.succ_le_of_lt hm), if_pos (Nat.le_of_lt hm)]

namespace Framing
variable {k frames m : Nat} {s : Sight} {p : Ppu}

theorem place (h : Framing k frames m s) (hp : s.timing = p.timing) :
    p.timing.place = elapsed s.log % 89342 := by
  rw [← hp]
  exact h.clock.place

/-- A frame is not completed a second time before its step is over. -/
theorem once (h : Framing k frames m s) (hp : s.timing = p.timing) (hr : s.ready = true) :
    p.tick.frameComplete = false := by
  have hplace := h.place hp
  have hsoon := h.ready hr
  rw [Ppu.frameComplete_eq_place]
  exact beq_false_of_ne (by omega)

theorem completed_dot (h : Framing k frames m s) (hp : s.timing = p.timing) (q : Ppu) :
    (elapsed (.dot p q :: s.log) + 6818) / 89342 =
      frames + (s.ready || p.tick.frameComplete).toNat := by
  rw [completions_dot (h.place hp), h.completed, ← Ppu.frameComplete_eq_place, Nat.add_assoc]
  cases hr : s.ready with
  | true => rw [h.once hp hr, Bool.or_false, Bool.toNat_false, Nat.add_zero]
  | false => rw [Bool.false_or, Bool.toNat_false, Nat.zero_add]

theorem ready_dot (h : Framing k frames (m + 1) s) (hp : s.timing = p.timing) (hm : m < 3)
    (q : Ppu) (hr : (s.ready || p.tick.frameComplete) = true) :
    (elapsed (.dot p q :: s.log) + 6818) % 89342 + m < 3 := by
  have hplace := h.place hp
  have helapsed := elapsed_dot_or (q := q) hplace
  rw [Ppu.frameComplete_eq_place, Bool.or_eq_true, beq_iff_eq] at hr
  rcases hr with hready | hend
  · have hsoon := h.ready hready
    omega
  · omega

theorem dot {q : Ppu} (h : Framing k frames (m + 1) s) (hm : m < 3) (hp : s.timing = p.timing)
    (hq : q.timing = p.timing.next) : Framing k frames m (s.dotted p q) where
  clock := by
    have hclock := h.clock
    rw [hp] at hclock
    exact hclock.dot hq
  cycles := by
    have hcycles := h.cycles
    rw [owed_succ hm] at hcycles
    change dotsIn s.log + 1 + owed m = 3 * s.cycles
    omega
  completed := h.completed_dot hp q
  ready := h.ready_dot hp hm q
  least := by
    have hleast := h.least
    change k ≤ shortFrames (.dot p q :: s.log)
    rw [shortFrames_dot]
    omega
  most := by
    have hmost := h.most
    have helapsed := elapsed_dot_or (q := q) (h.place hp)
    have hshort := elapsed_dot p q s.log
    change shortFrames (.dot p q :: s.log) + frames ≤
      k + (elapsed (.dot p q :: s.log) + 89002) / 89342
    rw [shortFrames_dot]
    omega

end Framing

theorem Framing.touch {k frames m : Nat} {s : Sight} {p : Ppu} (h : Framing k frames m s)
    (ht : s.timing.Touch p.timing) : Framing k frames m (s.touched p) :=
  ⟨h.clock.touch ht, h.cycles, h.completed, h.ready, h.least, h.most⟩

theorem framing_stepRule (k frames : Nat) : StepRule (Framing k frames) fun _ => True where
  entered _ _ h _ :=
    ⟨⟨h.clock.place, h.clock.frames, h.clock.oddFrame, h.clock.short⟩, h.cycles, h.completed,
      fun hr => by have := h.ready hr; omega, h.least, h.most⟩
  waited _ h :=
    ⟨h.clock, h.cycles, h.completed, fun hr => by have := h.ready hr; omega, h.least, h.most⟩
  touched _ _ h ht := h.touch ht
  ticked s h := by
    have hc : dotsIn s.log + 0 = 3 * s.cycles := h.cycles
    refine ⟨h.clock, ?_, h.completed, fun hr => by have := h.ready hr; omega, h.least, h.most⟩
    change dotsIn s.log + 3 = 3 * (s.cycles + 1)
    omega
  dotted _ _ _ _ hm h hp hq := h.dot hm hp hq
  read _ _ h ht := h.touch ht.toTouch
  ended _ _ _ := trivial

structure Framed (n : Nat) (c : WatchedConsole) : Prop where
  clock : OnClock c.picture.timing c.log
  cycles : dotsIn c.log = 3 * c.cpu.cycles
  completed : (elapsed c.log + 6818) / 89342 = n
  punctual : 1 ≤ n → (elapsed c.log + 6818) % 89342 < 3

section
open WatchedConsole

theorem leads_stepUntilReady_framing (k frames n : Nat) :
    Leads (fun c => Framing k frames 0 c.sight) (stepUntilReady n)
      (fun _ c => Framing k frames 0 c.sight) fun _ _ => True := by
  induction n with
  | zero => exact .pure fun _ hc => hc
  | succ n ih =>
    intro c hc
    rw [stepUntilReady_succ]
    cases hr : c.frameReady with
    | true => exact hc
    | false =>
      have hstart : Framing k frames 5 c.sight :=
        ⟨hc.clock, hc.cycles, hc.completed, fun h => absurd (hr.symm.trans h) (by decide), hc.least,
          hc.most⟩
      exact Leads.bind (framing_stepRule k frames).leads_step (fun _ => ih) c hstart

theorem leads_runFrame_framing (k frames : Nat) :
    Leads (fun c => Framing k frames 0 { c.sight with ready := false }) runFrame
      (fun _ c => Framing k frames 0 c.sight) fun _ _ => True :=
  .bind (M := fun _ c => Framing k frames 0 c.sight) (fun _ hc => hc) fun _ =>
    leads_stepUntilReady_framing k frames _

theorem ready_of_runFrame {c d : WatchedConsole} (h : runFrame c = .ok () d) :
    d.frameReady = true := by
  have ha := agree_runFrame c c.console rfl
  obtain ⟨k, -, hloop⟩ := Console.runFrame_loop c.console
  rw [h] at ha
  cases hx : Console.runFrame c.console <;> rw [hx] at ha hloop
  case ok =>
    obtain ⟨-, rfl⟩ := ha
    exact hloop.ready
  case error => exact ha.elim

theorem Framed.runFrame {n : Nat} {c d : WatchedConsole} (h : Framed n c)
    (hr : c.runFrame = .ok () d) : Framed (n + 1) d ∧
      shortFrames c.log ≤ shortFrames d.log ∧ shortFrames d.log ≤ shortFrames c.log + 1 := by
  have hdone := h.completed
  have hstart : Framing (shortFrames c.log) n 0 { c.sight with ready := false } := by
    refine ⟨h.clock, h.cycles, h.completed, nofun, Nat.le_refl _, ?_⟩
    change shortFrames c.log + n ≤ shortFrames c.log + (elapsed c.log + 89002) / 89342
    omega
  have hready := ready_of_runFrame hr
  have hend := (leads_runFrame_framing _ n).of_ok hstart hr
  have hcompleted : (elapsed d.log + 6818) / 89342 = n + d.frameReady.toNat := hend.completed
  have hmost : shortFrames d.log + n ≤ shortFrames c.log + (elapsed d.log + 89002) / 89342 :=
    hend.most
  have hpunctual : (elapsed d.log + 6818) % 89342 + 0 < 3 := hend.ready hready
  rw [hready, Bool.toNat_true] at hcompleted
  refine ⟨⟨hend.clock, hend.cycles, hcompleted, fun _ => by omega⟩, hend.least, ?_⟩
  omega

theorem Framed.runFrames {n m : Nat} {c d : WatchedConsole} (h : Framed n c)
    (hr : WatchedConsole.calls (List.replicate m .runFrame) c = .ok () d) : Framed (n + m) d := by
  induction m generalizing n c with
  | zero =>
    cases hr
    exact h
  | succ m ih =>
    obtain ⟨_, e, hframe, hrest⟩ := of_bind_ok hr
    have hd := ih (h.runFrame hframe).1 hrest
    rwa [Nat.add_assoc, Nat.add_comm 1 m] at hd

def JustReset (t : Ppu.Timing) (log : List Moment) : Prop :=
  OnClock t log ∧ dotsIn log = 0 ∧ elapsed log = 0

theorem justReset_reset {p : Ppu} (hp : p.frames = 0) :
    JustReset p.reset.timing [.reset p.reset] := by
  have helapsed : elapsed [.reset p.reset] = 0 := rfl
  refine ⟨⟨?_, ?_, ?_, Nat.zero_le _⟩, rfl, helapsed⟩
  · have hplace : (Beam.index ⟨Beam.preRenderLine, 0⟩ + 341) % 89342 = 0 % 89342 := by decide
    rw [helapsed]
    exact hplace
  · rw [helapsed]
    exact hp.trans (by decide)
  · rw [helapsed]
    rfl

theorem framed_reset {cartridge : Cartridge} {journal : Journal} {c : WatchedConsole}
    (h : WatchedConsole.reset (.wire cartridge journal) = .ok () c) : Framed 0 c := by
  have hJ : WatchedBus.TouchKeeps Ppu.Timing.ReadTouch JustReset := fun t p log h ht =>
    ⟨h.1.touch ht.toTouch, h.2⟩
  have hreset : Leads (· = WatchedConsole.wire cartridge journal) WatchedConsole.reset
      (fun _ c => WatchedBus.Holds JustReset c.machine.bus ∧ c.cpu.cycles = 0) fun _ _ => True := by
    refine .bind (M := fun _ c => WatchedBus.Holds JustReset c.machine.bus ∧ c.cpu.cycles = 0)
      ?_ fun _ => .bind (M := fun _ c => WatchedBus.Holds JustReset c.machine.bus ∧
        c.cpu.cycles = 0) ?_ fun _ _ hc => hc
    · intro _ he
      cases he
      exact ⟨justReset_reset rfl, rfl⟩
    · intro c ⟨hc, hn⟩
      have hr := Cpu.leads_reset hJ 0 c.machine ⟨hc, hn⟩
      dsimp only [onMachine]
      cases hx : Cpu.reset c.machine <;> rw [hx] at hr
      · exact ⟨hr.1, hr.2.1⟩
      · trivial
  obtain ⟨⟨hclock, hdots, helapsed⟩, hcycles⟩ := hreset.of_ok rfl h
  refine ⟨hclock, ?_, ?_, nofun⟩
  · change dotsIn c.machine.bus.log = 3 * c.cpu.cycles
    rw [hdots, hcycles]
  · change (elapsed c.machine.bus.log + 6818) / 89342 = 0
    rw [helapsed]

theorem framed_of_calls {cartridge : Cartridge} {journal : Journal} {n : Nat} {c : WatchedConsole}
    (h : WatchedConsole.calls (.reset :: List.replicate n .runFrame) (.wire cartridge journal) =
      .ok () c) : Framed n c := by
  obtain ⟨_, d, hreset, hrest⟩ := of_bind_ok h
  exact Nat.zero_add n ▸ (framed_reset hreset).runFrames hrest

/-- Frames on the clock, from the reset of a console to any number of frames, and for one frame
from any state. The cycles of a frame's end are the dots until then, less those left out, by three
and rounded up. -/
theorem frames_keep_time (cartridge : Cartridge) (journal : Journal) :
    (∀ n c, 1 ≤ n →
      Console.calls (.reset :: List.replicate n .runFrame) (.wire cartridge journal) = .ok () c →
      ∃ w, WatchedConsole.calls (.reset :: List.replicate n .runFrame) (.wire cartridge journal) =
          .ok () w ∧ w.console = c ∧
        c.cpu.cycles = (82524 + 89342 * (n - 1) - shortFrames w.log + 2) / 3 ∧
        shortFrames w.log ≤ n / 2 ∧ dotsIn w.log = 3 * c.cpu.cycles ∧
        ∀ d, Console.runFrame c = .ok () d →
          d.cpu.cycles = c.cpu.cycles + 29780 ∨ d.cpu.cycles = c.cpu.cycles + 29781) ∧
    ∀ c : Console, ∃ k, k ≤ 29781 ∧
      Console.Loop k { c with frameReady := false } (Console.runFrame c) := by
  refine ⟨fun n c hn hc => ?_, Console.runFrame_loop⟩
  have hwire : Shows (.wire cartridge journal) (.wire cartridge journal) := rfl
  obtain ⟨w, hw, rfl⟩ := (agree_calls _).ok_left hc hwire
  have hframed := framed_of_calls hw
  have hpunctual := hframed.punctual hn
  have hcompleted := hframed.completed
  have hdots := hframed.cycles
  have hshort := hframed.clock.short
  refine ⟨w, hw, rfl, ?_, ?_, hdots, fun d hd => ?_⟩
  · change w.cpu.cycles = _
    rw [elapsed] at hpunctual hcompleted
    omega
  · omega
  · have hshows : Shows w w.console := rfl
    obtain ⟨v, hv, rfl⟩ := agree_runFrame.ok_left hd hshows
    obtain ⟨hnext, hleast, hmost⟩ := hframed.runFrame hv
    have hpunctual' := hnext.punctual (Nat.le_add_left 1 n)
    have hcompleted' := hnext.completed
    have hdots' := hnext.cycles
    change v.cpu.cycles = w.cpu.cycles + 29780 ∨ v.cpu.cycles = w.cpu.cycles + 29781
    rw [elapsed] at hpunctual hcompleted hpunctual' hcompleted'
    omega

/-- A minute of frames of a program that jumps to itself. -/
theorem frames_keep_time_idle :
    ∃ c, Console.calls (.reset :: List.replicate 3600 .runFrame) (.wire idleCartridge {}) =
        .ok () c ∧
      ∃ k, k ≤ 1800 ∧ c.cpu.cycles = (82524 + 89342 * 3599 - k + 2) / 3 := by
  obtain ⟨c, hc⟩ := Console.idle_runs idleCartridge_idles {} rfl 3600 (by decide)
  obtain ⟨w, -, -, hcycles, hshort, -⟩ :=
    (frames_keep_time idleCartridge {}).1 3600 c (by decide) hc
  exact ⟨c, hc, _, hshort, hcycles⟩

end
end NesConsole
