import NesConsole.Proofs.Watch

/-! Invariants of a watched console, given by what a register access, an instruction boundary, a
cycle and a dot do to them. Their phase counts the dots that a step still owes; before it are 5, an
instruction boundary or cycle to come, and 4, an instruction under way. -/
namespace NesConsole

/-- What of a watched console its invariants speak of. -/
structure Sight where
  latched : Bool
  cycles : Nat
  ready : Bool
  timing : Ppu.Timing
  log : List Moment

namespace Sight

def touched (p : Ppu) (s : Sight) : Sight :=
  { s with timing := p.timing, log := .touched p :: s.log }

def entered (e : Entry) (s : Sight) : Sight :=
  { s with latched := false, log := .entered e :: s.log }

def ticked (s : Sight) : Sight := { s with cycles := s.cycles + 1 }

def dotted (p q : Ppu) (s : Sight) : Sight :=
  { s with
    latched := s.latched || p.tick.nmi
    ready := s.ready || p.tick.frameComplete
    timing := q.timing
    log := .dot p q :: s.log }

end Sight

/-- `I` goes through every step; however the step ends, `E` holds of the log. -/
structure StepRule (I : Nat → Sight → Prop) (E : List Moment → Prop) : Prop where
  entered (s : Sight) (e : Entry) : I 5 s → (e = .nmi ↔ s.latched = true) → I 4 (s.entered e)
  waited (s : Sight) : I 5 s → I 4 s
  touched (s : Sight) (p : Ppu) : I 4 s → s.timing.Touch p.timing → I 4 (s.touched p)
  ticked (s : Sight) : I 4 s → I 3 s.ticked
  dotted (m : Nat) (s : Sight) (p q : Ppu) : m < 3 → I (m + 1) s → s.timing = p.timing →
    q.timing = p.timing.next → I m (s.dotted p q)
  read (s : Sight) (p : Ppu) : I 0 s → s.timing.ReadTouch p.timing → I 0 (s.touched p)
  ended (m : Nat) (s : Sight) : I m s → E s.log

namespace MainBus
section
variable {α : Type}

def TouchesAt (T : Ppu.Timing → Ppu.Timing → Prop) (address : UInt16)
    (act : EStateM BusError MainBus α) : Prop :=
  ∀ t, Goes (fun b => b.picture.timing = t) act fun b =>
    if mainMap.owner? address = some .picture then T t b.picture.timing
    else b.picture.timing = t

theorem TouchesAt.mono {T T' : Ppu.Timing → Ppu.Timing → Prop} {address : UInt16}
    {act : EStateM BusError MainBus α} (h : TouchesAt T address act) (hT : ∀ s t, T s t → T' s t) :
    TouchesAt T' address act := by
  intro t b hb
  have hr := h t b hb
  by_cases ho : mainMap.owner? address = some .picture
  · simp only [ho, if_true] at hr ⊢
    cases hx : act b <;> rw [hx] at hr <;> exact hT _ _ hr
  · simp only [ho, if_false] at hr ⊢
    exact hr

theorem goes_onPicture {P Q : Ppu → Prop} {act : EStateM BusError (Wired Ppu VideoBus) α}
    (h : Goes (fun w => P w.chip) act fun w => Q w.chip) :
    Goes (fun b => P b.picture) (onPicture act) fun b => Q b.picture := by
  intro ⟨ram, peripherals, video, picture⟩ hp
  have hr := h ⟨picture, video⟩ hp
  dsimp only [onPicture]
  cases hx : act ⟨picture, video⟩ <;> rw [hx] at hr <;> exact hr

end

theorem touchesAt_read (address : UInt16) :
    TouchesAt Ppu.Timing.ReadTouch address (MainBus.read address) := by
  intro t b hb
  unfold MainBus.read
  cases ho : mainMap.owner? address with
  | none => exact hb
  | some device =>
    cases device with
    | picture =>
      simp only [if_true]
      exact goes_onPicture (P := fun p => p.timing = t) (Q := fun p => t.ReadTouch p.timing)
        (Ppu.touches_readRegister address t) b hb
    | cartridge =>
      dsimp only
      cases b.video.cartridge.read? address <;> exact hb
    | ram => exact hb
    | ramAgain base => exact hb
    | peripherals => exact hb

theorem touchesAt_write (address : UInt16) (data : UInt8) :
    TouchesAt Ppu.Timing.Touch address (MainBus.write address data) := by
  intro t b hb
  unfold MainBus.write
  cases ho : mainMap.owner? address with
  | none => exact hb
  | some device =>
    cases device with
    | picture =>
      simp only [if_true]
      exact goes_onPicture (P := fun p => p.timing = t) (Q := fun p => t.Touch p.timing)
        (Ppu.touches_writeRegister address data t) b hb
    | _ => exact hb

/-- A dot reports what it is to, and moves the timing on. -/
theorem stepDot_timing {b b' : MainBus} {tick : Tick} (h : MainBus.stepDot b = .ok tick b') :
    tick = b.picture.tick ∧ b'.picture.timing = b.picture.timing.next := by
  unfold MainBus.stepDot onPicture at h
  dsimp only at h
  cases hx : Ppu.step ⟨b.picture, b.video⟩ with
  | ok t w =>
    rw [hx] at h
    cases h
    obtain ⟨ht, hw⟩ := Ppu.step_timing hx
    exact ⟨ht, hw.trans (Ppu.timing_advance_beginDot b.picture)⟩
  | error =>
    rw [hx] at h
    cases h

end MainBus

/-! Along the processor. -/

namespace WatchedBus
section
variable {α : Type} {J : Ppu.Timing → List Moment → Prop}

def Holds (J : Ppu.Timing → List Moment → Prop) (w : WatchedBus) : Prop :=
  J w.bus.picture.timing w.log

def TouchKeeps (T : Ppu.Timing → Ppu.Timing → Prop) (J : Ppu.Timing → List Moment → Prop) : Prop :=
  ∀ t p log, J t log → T t p.timing → J p.timing (.touched p :: log)

def Same (J : Ppu.Timing → List Moment → Prop) (w v : WatchedBus) : Prop := w = v ∧ Holds J w

theorem keeps_noting {T : Ppu.Timing → Ppu.Timing → Prop} (hJ : TouchKeeps T J) {address : UInt16}
    {act : EStateM BusError MainBus α} (h : MainBus.TouchesAt T address act) :
    Keeps (Holds J) (noting address act) := by
  intro ⟨b, log⟩ hb
  have hr := h b.picture.timing b rfl
  dsimp only [noting]
  by_cases ho : mainMap.owner? address = some .picture
  · simp only [ho, if_true] at hr ⊢
    cases hx : act b <;> rw [hx] at hr <;> exact hJ _ _ _ hb hr
  · simp only [ho, if_false] at hr ⊢
    cases hx : act b <;> rw [hx] at hr <;>
      simpa only [Holds, hr] using hb

theorem agree_same {x : EStateM BusError WatchedBus α} (h : Keeps (Holds J) x) :
    Agree (Same J) x x := by
  intro w _ he
  obtain ⟨rfl, hw⟩ := he
  have hr := h w hw
  cases hx : x w <;> rw [hx] at hr <;> exact ⟨rfl, rfl, hr⟩

theorem same_agreement (hJ : TouchKeeps Ppu.Timing.Touch J) : CpuBusAgreement (Same J) where
  read address :=
    agree_same (keeps_noting hJ ((MainBus.touchesAt_read address).mono fun _ _ h => h.toTouch))
  write address data := agree_same (keeps_noting hJ (MainBus.touchesAt_write address data))
  tracing _ _ h := by rw [h.1]
  report event w v h := by
    obtain ⟨rfl, hw⟩ := h
    exact ⟨rfl, hw⟩

theorem keeps_of_agree {ε : Type} {x : EStateM ε (Wired Cpu WatchedBus) α}
    (h : Agree (SameChip (Same J)) x x) : Keeps (fun w => Holds J w.bus) x := by
  intro w hw
  have hr := h w w ⟨rfl, rfl, hw⟩
  cases hx : x w <;> rw [hx] at hr <;> exact hr.2.2.2

theorem keeps_quietly {P : WatchedBus → Prop} {act : EStateM BusError MainBus α}
    (h : ∀ log, Keeps (fun b => P ⟨b, log⟩) act) : Keeps P (quietly act) := by
  intro ⟨b, log⟩ hp
  have hr := h log b hp
  dsimp only [quietly]
  cases hx : act b <;> rw [hx] at hr <;> exact hr

theorem keeps_read (hJ : TouchKeeps Ppu.Timing.ReadTouch J) (address : UInt16) :
    Keeps (Holds J) (WatchedBus.read address) :=
  keeps_noting hJ (MainBus.touchesAt_read address)

theorem keeps_readBlock (hJ : TouchKeeps Ppu.Timing.ReadTouch J) (n : Nat) (address : UInt16) :
    Keeps (Holds J) (readBlock address n) := by
  induction n generalizing address with
  | zero => exact .pure []
  | succ n ih => exact .bind (keeps_read hJ address) fun _ => .bind (ih _) fun _ => .pure _

theorem holds_writeObjects (block : ObjectMemory) (b : MainBus) (log : List Moment)
    (h : Holds J ⟨b, log⟩) :
    Holds J ⟨{ b with picture := b.picture.writeObjects block }, log⟩ := by
  change J (b.picture.writeObjects block).timing log
  rw [Ppu.timing_writeObjects]
  exact h

theorem keeps_transferObjects (hJ : TouchKeeps Ppu.Timing.ReadTouch J) (page : UInt8) :
    Keeps (Holds J) (transferObjects page) := by
  refine .bind (keeps_quietly fun _ _ h => h) fun _ =>
    .bind (keeps_readBlock hJ _ _) fun bytes => keeps_quietly fun log b h => ?_
  exact holds_writeObjects _ b log h

end
end WatchedBus

namespace Cpu
section
variable {β α τ : Type}

def outside (c : Cpu) : Bool × Nat := (c.nmiPending, c.cycles)

theorem keepsView_access {f : Cpu → τ} {x : EStateM BusError (Wired Cpu β) α}
    (h : KeepsView f x) : KeepsView f (access x) := by
  intro v w hw
  have hr := h v w hw
  dsimp only [access, EStateM.adaptExcept]
  cases hx : x w <;> rw [hx] at hr <;> exact hr

structure Outside (f : Cpu → τ) : Prop where
  registers (c : Cpu) (r : Registers) : f { c with registers := r } = f c
  remaining (c : Cpu) (n : Nat) : f { c with remaining := n } = f c

theorem keepsView_interrupt [CpuBus β] {f : Cpu → τ} (h : Outside f) (vector : UInt16) :
    KeepsView (β := β) f (interrupt vector) :=
  .bind (keepsView_access (.onPart _ fun r c => h.registers c r)) fun _ =>
    .update fun c => h.remaining c _

theorem keepsView_traceLine [CpuBus β] (f : Cpu → τ) : KeepsView (β := β) f traceLine :=
  fun v => .traceLine fun address => KeepsView.read address v

theorem keepsView_carryOut [CpuBus β] {f : Cpu → τ} (h : Outside f) (i : Instruction) :
    KeepsView (β := β) f (carryOut i) := by
  refine .bind (.update fun c => h.remaining c _) fun _ => ?_
  refine .bind (keepsView_access (.onPart _ fun r c => h.registers c r)) fun _ => ?_
  exact .update fun c => h.remaining c _

theorem keepsView_executeNext [CpuBus β] {f : Cpu → τ} (h : Outside f) :
    KeepsView (β := β) f executeNext := by
  intro v
  refine .executeNext (fun address => keepsView_access (.read address) v) (fun _ _ _ hw => hw)
    fun _ i _ => ?_
  exact .takeUp (keepsView_access (keepsView_traceLine f) v) (fun _ _ hw => hw)
    (keepsView_carryOut h i v)

theorem keepsView_enter [CpuBus β] {f : Cpu → τ} (h : Outside f)
    (hn : ∀ c : Cpu, f { c with nmiPending := false } = f c) (entry : Entry) :
    KeepsView (β := β) f (enter entry) := by
  cases entry with
  | nmi => exact .bind (.update hn) fun _ => keepsView_interrupt h nmiVector
  | irq => exact keepsView_interrupt h irqVector
  | instruction => exact keepsView_executeNext h

/-- Accesses made for the processor lead where they lead. -/
theorem leads_bus_access {P E : Wired Cpu β → Prop} {Q : α → Wired Cpu β → Prop}
    {x : EStateM BusError (Wired Cpu β) α} (h : Leads P x Q fun _ => E) :
    Leads P (access x) Q fun _ => E := by
  intro w hw
  have hr := h w hw
  dsimp only [access, EStateM.adaptExcept]
  cases hx : x w <;> rw [hx] at hr <;> exact hr

theorem keeps_access {P : Wired Cpu β → Prop} {x : EStateM BusError (Wired Cpu β) α}
    (h : Keeps P x) : Keeps P (access x) := leads_bus_access h

theorem boundary_eq_nmi (c : Cpu) : c.boundary = .nmi ↔ c.nmiPending = true := by
  unfold boundary
  cases c.nmiPending with
  | true => simp
  | false => cases c.irqLine && !c.registers.p.interruptDisable <;> simp

theorem nmiPending_of_boundary {c : Cpu} (h : c.boundary ≠ .nmi) : c.nmiPending = false :=
  Bool.eq_false_iff.2 fun hpending => h (c.boundary_eq_nmi.2 hpending)

theorem boundary_eq_irq (c : Cpu) : c.boundary = .irq ↔
    c.nmiPending = false ∧ c.irqLine = true ∧ c.registers.p.interruptDisable = false := by
  unfold boundary
  cases c.nmiPending <;> cases c.irqLine <;> cases c.registers.p.interruptDisable <;> simp

end
end Cpu

/-- A reset of the processor reads its vector and clears its latch; its cycles stay. -/
theorem Cpu.leads_reset {J : Ppu.Timing → List Moment → Prop}
    (hJ : WatchedBus.TouchKeeps Ppu.Timing.ReadTouch J) (cycles : Nat) :
    Leads (fun w => WatchedBus.Holds J w.bus ∧ w.chip.cycles = cycles) Cpu.reset
      (fun _ w => WatchedBus.Holds J w.bus ∧ w.chip.cycles = cycles ∧ w.chip.nmiPending = false)
      fun _ w => WatchedBus.Holds J w.bus := by
  have hread (address : UInt16) : Keeps (fun w : Wired Cpu WatchedBus => WatchedBus.Holds J w.bus)
      (Wired.read address) := .onBus (WatchedBus.keeps_read hJ address)
  have hbus : Keeps (fun w : Wired Cpu WatchedBus => WatchedBus.Holds J w.bus)
      (Cpu.access (readWord resetVector)) :=
    Cpu.keeps_access (.bind (hread _) fun _ => .bind (hread _) fun _ => .pure _)
  have hchip : KeepsView (β := WatchedBus) (·.cycles) (Cpu.access (readWord resetVector)) :=
    Cpu.keepsView_access (.bind (.read _) fun _ => .bind (.read _) fun _ => .pure _)
  have hvector := (hbus.and (hchip cycles)).mono (fun _ h => h) (fun _ _ h => h) fun _ _ h => h.1
  refine .bind hvector fun pc => ?_
  intro ⟨c, b⟩ ⟨hb, hn⟩
  exact ⟨hb, hn, rfl⟩

def Wired.sight (ready : Bool) (w : Wired Cpu WatchedBus) : Sight :=
  ⟨w.chip.nmiPending, w.chip.cycles, ready, w.bus.bus.picture.timing, w.bus.log⟩

def WatchedConsole.sight (c : WatchedConsole) : Sight := c.machine.sight c.frameReady

namespace StepRule
section
open WatchedBus
variable {α : Type} {I : Nat → Sight → Prop} {E : List Moment → Prop}

theorem keeps (h : StepRule I E) (ready : Bool) {x : EStateM CpuError (Wired Cpu WatchedBus) α}
    (hx : ∀ J, TouchKeeps Ppu.Timing.Touch J → Agree (SameChip (Same J)) x x)
    (hv : KeepsView Cpu.outside x) : Keeps (fun w => I 4 (w.sight ready)) x := by
  intro w hw
  have hJ : TouchKeeps Ppu.Timing.Touch
      fun t log => I 4 ⟨w.chip.nmiPending, w.chip.cycles, ready, t, log⟩ :=
    fun t p log hi ht => h.touched ⟨_, _, _, t, log⟩ p hi ht
  have hb := keeps_of_agree (hx _ hJ) w hw
  have hc := hv _ w rfl
  cases hr : x w <;> rw [hr] at hb hc
  all_goals
    simp only [Cpu.outside, Prod.mk.injEq] at hc
    simpa only [Holds, Wired.sight, hc.1, hc.2] using hb

theorem keeps_interrupt (h : StepRule I E) (ready : Bool) (vector : UInt16) :
    Keeps (fun w => I 4 (w.sight ready)) (Cpu.interrupt vector) :=
  h.keeps ready (fun _ hJ => haveI := same_agreement hJ; .interrupt vector)
    (Cpu.keepsView_interrupt ⟨fun _ _ => rfl, fun _ _ => rfl⟩ vector)

theorem keeps_executeNext (h : StepRule I E) (ready : Bool) :
    Keeps (fun w => I 4 (w.sight ready)) Cpu.executeNext :=
  h.keeps ready (fun _ hJ => haveI := same_agreement hJ; .executeNext)
    (Cpu.keepsView_executeNext ⟨fun _ _ => rfl, fun _ _ => rfl⟩)

theorem goes_watchedServe (h : StepRule I E) (ready : Bool) :
    Goes (fun w => I 5 (w.sight ready)) Cpu.watchedServe fun w => I 4 (w.sight ready) := by
  intro ⟨c, b⟩ hi
  have he := h.entered _ c.boundary hi c.boundary_eq_nmi
  have hstay : c.boundary ≠ .nmi →
      I 4 (Wired.sight ready ⟨c, b.mark (.entered c.boundary)⟩) := by
    intro hn
    rw [Wired.sight, Cpu.nmiPending_of_boundary hn]
    exact he
  rw [Cpu.watchedServe_apply]
  cases hc : c.boundary with
  | nmi =>
    rw [hc] at he
    exact h.keeps_interrupt ready nmiVector
      ⟨{ c with nmiPending := false }, b.mark (.entered .nmi)⟩ he
  | irq =>
    rw [hc] at hstay
    exact h.keeps_interrupt ready irqVector ⟨c, b.mark (.entered .irq)⟩ (hstay nofun)
  | instruction =>
    rw [hc] at hstay
    exact h.keeps_executeNext ready ⟨c, b.mark (.entered .instruction)⟩ (hstay nofun)

theorem leads_tick (h : StepRule I E) (ready : Bool) :
    Leads (fun w => I 4 (w.sight ready)) Cpu.tick (fun _ w => I 3 (w.sight ready))
      fun _ w => E w.bus.log := by
  intro ⟨c, b⟩ hi
  unfold Cpu.tick
  by_cases hc : c.cycles + 1 < cycleLimit
  · simp only [hc, if_true]
    exact h.ticked _ hi
  · simp only [hc, if_false]
    exact h.ended 4 _ hi

theorem leads_clock (h : StepRule I E) (ready : Bool) :
    Leads (fun w => I 5 (w.sight ready)) (Cpu.clockBy Cpu.watchedServe)
      (fun _ w => I 3 (w.sight ready)) fun _ w => E w.bus.log := by
  intro w hi
  unfold Cpu.clockBy
  cases w.chip.fault with
  | some e => exact h.ended 5 _ hi
  | none =>
    by_cases hc : w.chip.remaining = 0
    · have hs := h.goes_watchedServe ready w hi
      simp only [hc, if_true]
      cases hx : Cpu.watchedServe w <;> rw [hx] at hs
      case ok => exact h.leads_tick ready _ hs
      case error => exact h.ended 4 _ hs
    · simp only [hc, if_false]
      exact h.leads_tick ready w (h.waited _ hi)

end

/-! Along the console. -/

section
open WatchedBus (TouchKeeps)
open WatchedConsole
variable {α : Type} {I : Nat → Sight → Prop} {E : List Moment → Prop}

theorem leads_onMachine {P Q : Bool → Wired Cpu WatchedBus → Prop}
    {x : EStateM CpuError (Wired Cpu WatchedBus) α}
    (h : ∀ ready, Leads (P ready) x (fun _ => Q ready) fun _ w => E w.bus.log) :
    Leads (fun c => P c.frameReady c.machine) (onMachine x) (fun _ c => Q c.frameReady c.machine)
      fun _ c => E c.log := by
  intro ⟨machine, ready⟩ hp
  have hr := h ready machine hp
  dsimp only [onMachine]
  cases hx : x machine <;> rw [hx] at hr <;> exact hr

theorem leads_onBus {P : WatchedConsole → Prop} {x : EStateM BusError WatchedBus α}
    {Q : α → WatchedConsole → Prop}
    (h : ∀ chip ready, Leads (fun b => P ⟨⟨chip, b⟩, ready⟩) x (fun a b => Q a ⟨⟨chip, b⟩, ready⟩)
      fun _ b => E b.log) :
    Leads P (onBus x) Q fun _ c => E c.log := by
  intro ⟨⟨chip, b⟩, ready⟩ hp
  have hr := h chip ready b hp
  dsimp only [onBus, Wired.onBus]
  cases hx : x b <;> rw [hx] at hr <;> exact hr

theorem sight_heed (tick : Tick) (c : WatchedConsole) : (c.heed tick).sight = { c.sight with
    latched := c.sight.latched || tick.nmi
    ready := c.sight.ready || tick.frameComplete } := by
  obtain ⟨nmi, complete⟩ := tick
  cases nmi
  · simp [heed, WatchedConsole.sight, Wired.sight, WatchedConsole.cpu]
  · simp [heed, WatchedConsole.sight, Wired.sight, WatchedConsole.cpu, Cpu.nmi]

theorem leads_stepDot (h : StepRule I E) (m : Nat) (hm : m < 3) :
    Leads (fun c => I (m + 1) c.sight) stepDot (fun _ c => I m c.sight) fun _ c => E c.log := by
  refine .bind (M := fun tick c => I m (c.heed tick).sight) (leads_onBus fun chip ready => ?_)
    fun _ _ hc => hc
  intro ⟨b, log⟩ hi
  dsimp only [WatchedBus.stepDot]
  cases hx : MainBus.stepDot b with
  | ok tick b' =>
    obtain ⟨rfl, ht⟩ := MainBus.stepDot_timing hx
    dsimp only
    rw [sight_heed]
    exact h.dotted m _ b.picture b'.picture hm hi rfl ht
  | error => exact h.ended _ _ hi

theorem leads_stall (h : StepRule I E) (ready : Bool) (cycles : Nat) :
    Leads (fun w => I 0 (w.sight ready)) (Cpu.stall cycles) (fun _ w => I 0 (w.sight ready))
      fun _ w => E w.bus.log := by
  intro ⟨c, b⟩ hi
  unfold Cpu.stall
  by_cases hc : c.remaining + cycles < waitLimit
  · simp only [hc, if_true]
    exact hi
  · simp only [hc, if_false]
    exact h.ended 0 _ hi

theorem leads_reads (h : StepRule I E) {x : EStateM BusError WatchedBus α}
    (hx : ∀ J, TouchKeeps Ppu.Timing.ReadTouch J → Keeps (WatchedBus.Holds J) x) :
    Leads (fun c => I 0 c.sight) (onBus x) (fun _ c => I 0 c.sight) fun _ c => E c.log := by
  refine leads_onBus fun chip ready => ?_
  have hJ : TouchKeeps Ppu.Timing.ReadTouch
      fun t log => I 0 ⟨chip.nmiPending, chip.cycles, ready, t, log⟩ :=
    fun t p log hi ht => h.read ⟨_, _, _, t, log⟩ p hi ht
  exact (hx _ hJ).mono (fun _ hw => hw) (fun _ _ hw => hw) fun _ _ hw => h.ended 0 _ hw

theorem leads_serveTransfer (h : StepRule I E) :
    Leads (fun c => I 0 c.sight) serveTransfer (fun _ c => I 0 c.sight) fun _ c => E c.log := by
  refine .bind (h.leads_reads fun J _ => WatchedBus.keeps_quietly fun _ _ hb => hb)
    fun request => ?_
  cases request with
  | none => exact .pure fun _ hc => hc
  | some page =>
    refine .bind (h.leads_reads fun J hJ => WatchedBus.keeps_transferObjects hJ page) fun _ => ?_
    intro c hc
    exact leads_onMachine (h.leads_stall · _) c hc

/-- A step takes the rule from before its cycle to after its dots. -/
theorem leads_step (h : StepRule I E) :
    Leads (fun c => I 5 c.sight) step (fun _ c => I 0 c.sight) fun _ c => E c.log := by
  have hclock : Leads (fun c => I 5 c.sight) (onMachine (Cpu.clockBy Cpu.watchedServe))
      (fun _ c => I 3 c.sight) fun _ c => E c.log :=
    leads_onMachine (P := fun ready w => I 5 (w.sight ready))
      (Q := fun ready w => I 3 (w.sight ready)) h.leads_clock
  exact .bind hclock fun _ => .bind (h.leads_stepDot 2 (by decide)) fun _ =>
    .bind (h.leads_stepDot 1 (by decide)) fun _ => .bind (h.leads_stepDot 0 (by decide)) fun _ =>
      h.leads_serveTransfer

end
end StepRule
end NesConsole
