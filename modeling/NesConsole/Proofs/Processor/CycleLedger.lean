import NesConsole.Proofs.Processor.Costs

/-! The cycles of a processor over a flat memory, accounted for. Whatever a host does with it, the
cycles that have passed and those still to come are what its interrupts, its instructions and the
stalls have cost, and every turn is the one that the interrupt lines ask for. -/
namespace NesConsole

inductive CpuCall where
  | clock | step | nmi
  | setIrq (asserted : Bool)
  | stall (cycles : Nat)

def total {α : Type} (f : α → Nat) : List α → Nat
  | [] => 0
  | a :: l => f a + total f l

def CpuCall.stalls : CpuCall → Nat
  | .stall cycles => cycles
  | _ => 0

namespace Cpu

def call {β : Type} [CpuBus β] : CpuCall → EStateM CpuError (Wired Cpu β) Unit
  | .clock => clock
  | .step => do let _ ← step
  | .nmi => Wired.update nmi
  | .setIrq asserted => Wired.update (setIrq asserted)
  | .stall cycles => stall cycles

def calls {β : Type} [CpuBus β] : List CpuCall → EStateM CpuError (Wired Cpu β) Unit
  | [] => return
  | c :: cs => do
    call c
    calls cs

structure Entered (w u : Wired Cpu (FlatMemory 0x10000)) : Prop where
  fault : u.chip.fault = none
  holes : u.bus.holes = []
  cycles : u.chip.cycles = w.chip.cycles
  line : u.chip.irqLine = w.chip.irqLine
  latch : u.chip.nmiPending = false
  charged : u.chip.remaining = charge w
  takes : 1 ≤ u.chip.remaining

theorem leads_enter_latch {β : Type} [CpuBus β] (entry : Entry) :
    Leads (fun w : Wired Cpu β => w.chip.nmiPending = true → entry = .nmi) (enter entry)
      (fun _ w => w.chip.nmiPending = false) fun _ _ => True := by
  have houtside : Outside Cpu.nmiPending := ⟨fun _ _ => rfl, fun _ _ => rfl⟩
  have hinterrupt (vector : UInt16) : Leads (fun w : Wired Cpu β => w.chip.nmiPending = false)
      (interrupt vector) (fun _ w => w.chip.nmiPending = false) fun _ _ => True :=
    Leads.mono (keepsView_interrupt houtside vector false) (fun _ h => h) (fun _ _ h => h)
      fun _ _ _ => trivial
  have hnone {w : Wired Cpu β} {entry : Entry} (h : w.chip.nmiPending = true → entry = .nmi)
      (hentry : entry ≠ .nmi) : w.chip.nmiPending = false := by
    cases hpending : w.chip.nmiPending with
    | false => rfl
    | true => exact absurd (h hpending) hentry
  cases entry with
  | nmi => exact .bind (M := fun _ w => w.chip.nmiPending = false) (fun _ _ => rfl) fun _ =>
      hinterrupt _
  | irq => exact (hinterrupt _).mono (fun _ h => hnone h nofun) (fun _ _ h => h) fun _ _ h => h
  | instruction =>
    exact Leads.mono (keepsView_executeNext houtside false) (fun _ h => hnone h nofun)
      (fun _ _ h => h) fun _ _ _ => trivial

theorem entered_of_enter {w u : Wired Cpu (FlatMemory 0x10000)} (hfault : w.chip.fault = none)
    (hholes : w.bus.holes = []) (h : enter w.chip.boundary w = .ok () u) : Entered w u := by
  have hcharge := enter_charges hholes
  have htakes := leads_enter_takes w.chip.boundary w trivial
  have hlatch := leads_enter_latch w.chip.boundary w (boundary_eq_nmi w.chip).2
  have hkept := keepsView_enter (β := FlatMemory 0x10000)
    (f := fun c => (c.fault, c.cycles, c.irqLine)) ⟨fun _ _ => rfl, fun _ _ => rfl⟩ (fun _ => rfl)
    w.chip.boundary _ w rfl
  rw [h] at hcharge htakes hlatch hkept
  simp only [Prod.mk.injEq] at hkept
  exact ⟨hkept.1.trans hfault, hcharge.2, hkept.2.1, hkept.2.2, hlatch, hcharge.1, htakes⟩

def Exhausted (e : CpuError) (w : Wired Cpu (FlatMemory 0x10000)) : Prop :=
  Illegal e ∨ e = .counterFull ∧ cycleLimit ≤ w.chip.cycles + 1

/-- A cycle passes of what is under way, or turns to what is due. -/
theorem clock_charges {w : Wired Cpu (FlatMemory 0x10000)} (hfault : w.chip.fault = none)
    (hholes : w.bus.holes = []) : match clock w with
      | .ok _ v => w.chip.remaining ≠ 0 ∧ v = waited 1 w ∨
          w.chip.remaining = 0 ∧ ∃ u, enter w.chip.boundary w = .ok () u ∧ Entered w u ∧
            v = waited 1 u
      | .error e v => Exhausted e v := by
  have htick (u : Wired Cpu (FlatMemory 0x10000)) : match tick u with
      | .ok _ v => v = waited 1 u
      | .error e v => Exhausted e v := by
    rw [tick_eq]
    by_cases hroom : u.chip.cycles + 1 < cycleLimit
    · rw [if_pos hroom]
    · rw [if_neg hroom]
      exact .inr ⟨rfl, Nat.le_of_not_lt hroom⟩
  by_cases hidle : w.chip.remaining = 0
  case neg =>
    rw [clock_busy hfault hidle]
    have hr := htick w
    cases hx : tick w <;> rw [hx] at hr
    case ok => exact .inl ⟨hidle, hr⟩
    case error => exact hr
  case pos =>
    have hcharge := enter_charges hholes
    rw [clock_idle hfault hidle]
    cases henter : enter w.chip.boundary w with
    | error e u =>
      rw [henter] at hcharge
      exact .inl hcharge
    | ok _ u =>
      dsimp only
      have hr := htick u
      cases hx : tick u <;> rw [hx] at hr
      case ok => exact .inr ⟨hidle, u, rfl, entered_of_enter hfault hholes henter, hr⟩
      case error => exact hr

/-- A step answers what the event costs that is due, and leaves nothing under way. -/
theorem step_charges {w : Wired Cpu (FlatMemory 0x10000)} (hfault : w.chip.fault = none)
    (hholes : w.bus.holes = []) : match step w with
      | .ok n v => n = charge w ∧ v.chip.remaining = 0 ∧
          v.chip.cycles = w.chip.cycles + w.chip.remaining + n
      | .error e _ => Illegal e ∨
          e = .counterFull ∧ cycleLimit ≤ w.chip.cycles + w.chip.remaining + charge w := by
  rcases step_rested hfault with hstep | ⟨hfull, u, hstep⟩
  case inr =>
    rw [hstep]
    exact .inr ⟨rfl, Nat.le_add_right_of_le hfull⟩
  have hturn := turn_idle (w := rested w) hfault (rested_remaining w)
  have hcharge := enter_charges (w := rested w) hholes
  rw [hstep]
  cases henter : enter (rested w).chip.boundary (rested w) with
  | error e u =>
    rw [henter] at hturn hcharge
    rw [hturn]
    exact .inl hcharge
  | ok _ u =>
    rw [henter] at hturn
    have hentered := entered_of_enter (w := rested w) hfault hholes henter
    have hcost : u.chip.remaining = charge w := hentered.charged
    obtain ⟨-, hcycles, -, hok | ⟨hfull, t, herror⟩⟩ := hturn
    · rw [hok]
      exact ⟨hcost, rested_remaining u, congrArg (· + u.chip.remaining) hcycles⟩
    · rw [herror]
      rw [hcost] at hfull
      exact .inr ⟨rfl, hfull⟩

end Cpu

inductive Deed where
  /-- A cycle of what is under way. -/
  | waited
  /-- A cycle that enters an interrupt, or runs an instruction at its cost. -/
  | nmi | irq
  | ran (cost : Nat)
  /-- What a host does to the interrupt lines, and to the cycles that are waited for. -/
  | latched
  | line (asserted : Bool)
  | stalled (cycles : Nat)

namespace Deed

def ofClock (w : Wired Cpu (FlatMemory 0x10000)) : Deed :=
  if w.chip.remaining = 0 then
    match w.chip.boundary with
    | .nmi => .nmi
    | .irq => .irq
    | .instruction => .ran (Cpu.charge w)
  else .waited

def cycles : Deed → Nat
  | .waited | .nmi | .irq | .ran _ => 1
  | _ => 0

def interrupts : Deed → Nat
  | .nmi | .irq => 1
  | _ => 0

def cost : Deed → Nat
  | .ran cost => cost
  | _ => 0

def stalls : Deed → Nat
  | .stalled cycles => cycles
  | _ => 0

def nmiAfter (start : Bool) : List Deed → Bool
  | [] => start
  | .latched :: _ => true
  | .nmi :: _ => false
  | _ :: past => nmiAfter start past

def lineAfter (start : Bool) : List Deed → Bool
  | [] => start
  | .line asserted :: _ => asserted
  | _ :: past => lineAfter start past

end Deed

structure Chronicle where
  machine : Wired Cpu (FlatMemory 0x10000)
  deeds : List Deed := []

namespace Chronicle
section
variable {α : Type}

/-- Takes down what a program is to do, if it does it. -/
def noting (deed : Wired Cpu (FlatMemory 0x10000) → Deed)
    (act : EStateM CpuError (Wired Cpu (FlatMemory 0x10000)) α) :
    EStateM CpuError Chronicle α := fun ⟨w, past⟩ =>
  match act w with
  | .ok a v => .ok a ⟨v, deed w :: past⟩
  | .error e v => .error e ⟨v, past⟩

def clock : EStateM CpuError Chronicle Unit := noting Deed.ofClock Cpu.clock

def clocks : Nat → EStateM CpuError Chronicle Unit
  | 0 => return
  | n + 1 => do
    clock
    clocks n

def look (view : Cpu → α) : EStateM CpuError Chronicle α := fun s => .ok (view s.machine.chip) s

def step : EStateM CpuError Chronicle Nat := do
  clocks (← look (·.remaining))
  let start ← look (·.cycles)
  clock
  clocks (← look (·.remaining))
  return (← look (·.cycles)) - start

def call : CpuCall → EStateM CpuError Chronicle Unit
  | .clock => clock
  | .step => do let _ ← step
  | .nmi => noting (fun _ => .latched) (Wired.update Cpu.nmi)
  | .setIrq asserted => noting (fun _ => .line asserted) (Wired.update (Cpu.setIrq asserted))
  | .stall cycles => noting (fun _ => .stalled cycles) (Cpu.stall cycles)

def calls : List CpuCall → EStateM CpuError Chronicle Unit
  | [] => return
  | c :: cs => do
    call c
    calls cs

/-! Without what is taken down everything is as it was. -/

def Shows (s : Chronicle) (w : Wired Cpu (FlatMemory 0x10000)) : Prop := s.machine = w

theorem agree_noting (deed : Wired Cpu (FlatMemory 0x10000) → Deed)
    (act : EStateM CpuError (Wired Cpu (FlatMemory 0x10000)) α) :
    Agree Shows (noting deed act) act := by
  intro ⟨w, past⟩ _ he
  cases he
  dsimp only [noting]
  cases act w <;> exact ⟨rfl, rfl⟩

theorem agree_clocks (n : Nat) : Agree Shows (clocks n) (Cpu.clocks n) := by
  induction n with
  | zero => exact .pure ()
  | succ n ih => exact .bind (agree_noting _ _) fun _ => ih

theorem agree_look (view : Cpu → α) : Agree Shows (look view) (Wired.look view) :=
  fun _ _ h => ⟨congrArg (fun w => view w.chip) h, h⟩

theorem agree_step : Agree Shows step Cpu.step := by
  refine .bind (agree_look _) fun before => .bind (agree_clocks before) fun _ => ?_
  refine .bind (agree_look _) fun start => .bind (agree_noting _ _) fun _ => ?_
  refine .bind (agree_look _) fun beyond => .bind (agree_clocks beyond) fun _ => ?_
  exact .bind (agree_look _) fun stop => .pure _

theorem agree_call (c : CpuCall) : Agree Shows (call c) (Cpu.call c) := by
  cases c with
  | clock => exact agree_noting _ _
  | step => exact .bind agree_step fun _ => .pure ()
  | nmi => exact agree_noting (fun _ => .latched) (Wired.update Cpu.nmi)
  | setIrq asserted =>
    exact agree_noting (fun _ => .line asserted) (Wired.update (Cpu.setIrq asserted))
  | stall cycles => exact agree_noting (fun _ => .stalled cycles) _

theorem agree_calls (cs : List CpuCall) : Agree Shows (calls cs) (Cpu.calls cs) := by
  induction cs with
  | nil => exact .pure ()
  | cons c cs ih => exact .bind (agree_call c) fun _ => ih

end

/-- The books of a processor that began as `start`, with `stalls` of stalling among its deeds. -/
structure Balanced (start : Cpu) (stalls : Nat) (s : Chronicle) : Prop where
  fault : s.machine.chip.fault = none
  holes : s.machine.bus.holes = []
  cycles : s.machine.chip.cycles = start.cycles + total Deed.cycles s.deeds
  balance : s.machine.chip.cycles + s.machine.chip.remaining =
    start.cycles + start.remaining + interruptCycles * total Deed.interrupts s.deeds +
      total Deed.cost s.deeds + total Deed.stalls s.deeds
  latch : s.machine.chip.nmiPending = Deed.nmiAfter start.nmiPending s.deeds
  line : s.machine.chip.irqLine = Deed.lineAfter start.irqLine s.deeds
  stalled : total Deed.stalls s.deeds = stalls
  waits : s.machine.chip.remaining ≤ start.remaining + stalls + 11

variable {start : Cpu} {stalls : Nat} {s : Chronicle}

theorem balanced_start {w : Wired Cpu (FlatMemory 0x10000)} (hfault : w.chip.fault = none)
    (hholes : w.bus.holes = []) : Balanced w.chip 0 ⟨w, []⟩ where
  fault := hfault
  holes := hholes
  cycles := rfl
  balance := rfl
  latch := rfl
  line := rfl
  stalled := rfl
  waits := Nat.le_add_right_of_le (Nat.le_refl _)

def Refused (e : CpuError) (s : Chronicle) : Prop := Cpu.Exhausted e s.machine

namespace Balanced

/-- What is taken down changes the books by what it is. -/
theorem note {w : Wired Cpu (FlatMemory 0x10000)} {d : Deed} {stalls' : Nat}
    (h : Balanced start stalls s) (hfault : w.chip.fault = none) (hholes : w.bus.holes = [])
    (hcycles : w.chip.cycles = s.machine.chip.cycles + d.cycles)
    (hremaining : w.chip.remaining + d.cycles =
      s.machine.chip.remaining + interruptCycles * d.interrupts + d.cost + d.stalls)
    (hlatch : w.chip.nmiPending = Deed.nmiAfter start.nmiPending (d :: s.deeds))
    (hline : w.chip.irqLine = Deed.lineAfter start.irqLine (d :: s.deeds))
    (hstalls : stalls' = d.stalls + stalls)
    (hwaits : w.chip.remaining ≤ start.remaining + stalls' + 11) :
    Balanced start stalls' ⟨w, d :: s.deeds⟩ where
  fault := hfault
  holes := hholes
  cycles := by
    have := h.cycles
    simp only [total]
    omega
  balance := by
    have := h.balance
    simp only [total, interruptCycles] at this hremaining ⊢
    omega
  latch := hlatch
  line := hline
  stalled := by
    have := h.stalled
    simp only [total]
    omega
  waits := hwaits

theorem waited (h : Balanced start stalls s) (hbusy : s.machine.chip.remaining ≠ 0) :
    Balanced start stalls ⟨Cpu.waited 1 s.machine, .ofClock s.machine :: s.deeds⟩ := by
  have hdeed : Deed.ofClock s.machine = .waited := if_neg hbusy
  have hone : s.machine.chip.remaining - 1 + 1 = s.machine.chip.remaining :=
    Nat.sub_add_cancel (Nat.pos_of_ne_zero hbusy)
  rw [hdeed]
  refine h.note h.fault h.holes rfl hone h.latch h.line (Nat.zero_add _).symm ?_
  exact Nat.le_trans (Nat.sub_le _ _) h.waits

theorem entered (h : Balanced start stalls s) (hidle : s.machine.chip.remaining = 0)
    {u : Wired Cpu (FlatMemory 0x10000)} (hu : Cpu.Entered s.machine u) :
    Balanced start stalls ⟨Cpu.waited 1 u, .ofClock s.machine :: s.deeds⟩ := by
  have hcost : u.chip.remaining ≤ 11 := hu.charged ▸ Cpu.charge_le _
  have hwaits : u.chip.remaining - 1 ≤ start.remaining + stalls + 11 := by omega
  have hone : u.chip.remaining - 1 + 1 = u.chip.remaining := Nat.sub_add_cancel hu.takes
  have hcycles : u.chip.cycles + 1 = s.machine.chip.cycles + 1 := congrArg (· + 1) hu.cycles
  have hdeed : Deed.ofClock s.machine = _ := if_pos hidle
  have hlatch (hnot : s.machine.chip.boundary ≠ .nmi) :
      u.chip.nmiPending = Deed.nmiAfter start.nmiPending s.deeds :=
    hu.latch.trans ((Cpu.nmiPending_of_boundary hnot).symm.trans h.latch)
  rw [hdeed]
  cases hboundary : s.machine.chip.boundary with
  | nmi =>
    have hseven : u.chip.remaining = interruptCycles := by rw [hu.charged, Cpu.charge, hboundary]
    refine h.note hu.fault hu.holes hcycles ?_ hu.latch (hu.line.trans h.line)
      (Nat.zero_add _).symm hwaits
    change u.chip.remaining - 1 + 1 = _
    rw [hone, hseven, hidle]
    rfl
  | irq =>
    have hseven : u.chip.remaining = interruptCycles := by rw [hu.charged, Cpu.charge, hboundary]
    refine h.note hu.fault hu.holes hcycles ?_ ?_ (hu.line.trans h.line)
      (Nat.zero_add _).symm hwaits
    · change u.chip.remaining - 1 + 1 = _
      rw [hone, hseven, hidle]
      rfl
    · exact hlatch (by rw [hboundary]; decide)
  | instruction =>
    refine h.note hu.fault hu.holes hcycles ?_ ?_ (hu.line.trans h.line)
      (Nat.zero_add _).symm hwaits
    · change u.chip.remaining - 1 + 1 = s.machine.chip.remaining + 0 + Cpu.charge s.machine + 0
      rw [hone, hu.charged, hidle]
      omega
    · exact hlatch (by rw [hboundary]; decide)

end Balanced

theorem leads_clock : Leads (Balanced start stalls) clock (fun _ => Balanced start stalls)
    Refused := by
  intro s h
  have hclock := Cpu.clock_charges h.fault h.holes
  dsimp only [clock, noting]
  cases hx : Cpu.clock s.machine <;> rw [hx] at hclock
  case error => exact hclock
  case ok =>
    rcases hclock with ⟨hbusy, rfl⟩ | ⟨hidle, u, -, hu, rfl⟩
    · exact h.waited hbusy
    · exact h.entered hidle hu

theorem leads_clocks (n : Nat) : Leads (Balanced start stalls) (clocks n)
    (fun _ => Balanced start stalls) Refused := by
  induction n with
  | zero => exact fun _ h => h
  | succ n ih => exact .bind leads_clock fun _ => ih

theorem leads_look {α : Type} (view : Cpu → α) : Leads (Balanced start stalls) (look view)
    (fun _ => Balanced start stalls) Refused := fun _ h => h

theorem leads_step : Leads (Balanced start stalls) step (fun _ => Balanced start stalls)
    Refused := by
  refine .bind (leads_look _) fun before => .bind (leads_clocks before) fun _ => ?_
  refine .bind (leads_look _) fun start => .bind leads_clock fun _ => ?_
  refine .bind (leads_look _) fun beyond => .bind (leads_clocks beyond) fun _ => ?_
  exact .bind (leads_look _) fun _ _ h => h

/-- A stall is not refused while the stalls, with what was under way at the start, stay below half
of the limit. -/
theorem leads_stall {n : Nat} (hroom : start.remaining + (n + stalls) < 0x80000000) :
    Leads (Balanced start stalls) (call (.stall n)) (fun _ => Balanced start (n + stalls))
      Refused := by
  rintro ⟨⟨c, b⟩, past⟩ h
  have hwaits : c.remaining ≤ start.remaining + stalls + 11 := h.waits
  have hfits : c.remaining + n < waitLimit := by
    simp only [waitLimit]
    omega
  dsimp only [call, noting, Cpu.stall]
  rw [if_pos hfits]
  refine h.note (d := .stalled n) h.fault h.holes rfl rfl h.latch h.line rfl ?_
  change c.remaining + n ≤ start.remaining + (n + stalls) + 11
  omega

theorem leads_call (c : CpuCall) (hroom : start.remaining + (c.stalls + stalls) < 0x80000000) :
    Leads (Balanced start stalls) (call c) (fun _ => Balanced start (c.stalls + stalls))
      Refused := by
  have hnone : 0 + stalls = stalls := Nat.zero_add _
  cases c with
  | clock => exact hnone.symm ▸ leads_clock
  | step => exact hnone.symm ▸ .bind leads_step fun _ _ h => h
  | nmi =>
    intro s h
    exact h.note (d := .latched) h.fault h.holes rfl rfl rfl h.line rfl (hnone.symm ▸ h.waits)
  | setIrq asserted =>
    intro s h
    exact h.note (d := .line asserted) h.fault h.holes rfl rfl h.latch rfl rfl
      (hnone.symm ▸ h.waits)
  | stall n => exact leads_stall hroom

theorem leads_calls (cs : List CpuCall)
    (hroom : start.remaining + (total CpuCall.stalls cs + stalls) < 0x80000000) :
    Leads (Balanced start stalls) (calls cs)
      (fun _ => Balanced start (total CpuCall.stalls cs + stalls)) Refused := by
  induction cs generalizing stalls with
  | nil =>
    intro s h
    exact (Nat.zero_add stalls).symm ▸ h
  | cons c cs ih =>
    rw [total] at hroom ⊢
    have hsum : total CpuCall.stalls cs + (c.stalls + stalls) =
        c.stalls + total CpuCall.stalls cs + stalls := by omega
    refine .bind (leads_call c (by omega)) fun _ => ?_
    rw [← hsum]
    exact ih (by omega)

end Chronicle

/-- What holds of a processor `w` and of what happened to it, after calls that began at `start`. -/
structure Accounted (start : Wired Cpu (FlatMemory 0x10000)) (cs : List CpuCall) (deeds : List Deed)
    (w : Wired Cpu (FlatMemory 0x10000)) : Prop where
  /-- Taking down what happens changes nothing. -/
  run : Cpu.calls cs start = .ok () w
  cycles : w.chip.cycles = start.chip.cycles + total Deed.cycles deeds
  balance : w.chip.cycles + w.chip.remaining =
    start.chip.cycles + start.chip.remaining + 7 * total Deed.interrupts deeds +
      total CpuCall.stalls cs + total Deed.cost deeds
  /-- An NMI is due if one was latched since the last that was entered; else an IRQ, if its line is
  asserted and it is not masked; else an instruction. -/
  nmi : w.chip.boundary = .nmi ↔ Deed.nmiAfter start.chip.nmiPending deeds = true
  irq : w.chip.boundary = .irq ↔ Deed.nmiAfter start.chip.nmiPending deeds = false ∧
    Deed.lineAfter start.chip.irqLine deeds = true ∧ w.chip.registers.p.interruptDisable = false
  /-- A cycle is one of those that are waited for, or turns to what is due, at its cost. -/
  clock : match Cpu.clock w with
    | .ok _ v => v.chip.cycles = w.chip.cycles + 1 ∧
      (w.chip.remaining ≠ 0 ∧ v = Cpu.waited 1 w ∨
        w.chip.remaining = 0 ∧ ∃ u, Cpu.enter w.chip.boundary w = .ok () u ∧
          u.chip.remaining = Cpu.charge w ∧ 1 ≤ u.chip.remaining ∧ v = Cpu.waited 1 u)
    | .error e v => Cpu.Exhausted e v
  /-- A step lets what is under way pass, and answers the cost of what is due then. -/
  step : match Cpu.step w with
    | .ok n v => n = Cpu.charge w ∧ v.chip.remaining = 0 ∧
      v.chip.cycles = w.chip.cycles + w.chip.remaining + n
    | .error e _ => Cpu.Illegal e ∨
      e = .counterFull ∧ cycleLimit ≤ w.chip.cycles + w.chip.remaining + Cpu.charge w

theorem Chronicle.Balanced.accounted {start w : Wired Cpu (FlatMemory 0x10000)} {cs : List CpuCall}
    {deeds : List Deed} (h : Balanced start.chip (total CpuCall.stalls cs) ⟨w, deeds⟩)
    (hrun : Cpu.calls cs start = .ok () w) : Accounted start cs deeds w where
  run := hrun
  cycles := h.cycles
  balance := by
    have hbalance := h.balance
    have hstalled := h.stalled
    simp only [interruptCycles] at hbalance hstalled
    omega
  nmi := by
    rw [← h.latch]
    exact Cpu.boundary_eq_nmi _
  irq := by
    rw [← h.latch, ← h.line]
    exact Cpu.boundary_eq_irq _
  clock := by
    have hclock := Cpu.clock_charges (w := w) h.fault h.holes
    cases hx : Cpu.clock w <;> rw [hx] at hclock
    case error => exact hclock
    case ok =>
      rcases hclock with ⟨hbusy, rfl⟩ | ⟨hidle, u, henter, hu, rfl⟩
      · exact ⟨rfl, .inl ⟨hbusy, rfl⟩⟩
      · exact ⟨congrArg (· + 1) hu.cycles, .inr ⟨hidle, u, henter, hu.charged, hu.takes, rfl⟩⟩
  step := Cpu.step_charges h.fault h.holes

/-- The cycles of a processor are accounted for after any calls of a host on a memory without holes.
Only an illegal opcode and the end of the count are refused. -/
theorem cycles_are_accounted (start : Wired Cpu (FlatMemory 0x10000))
    (hfault : start.chip.fault = none) (hholes : start.bus.holes = []) (cs : List CpuCall)
    (hroom : start.chip.remaining + total CpuCall.stalls cs < 0x80000000) :
    Leads (· = ⟨start, []⟩) (Chronicle.calls cs)
      (fun _ s => Accounted start cs s.deeds s.machine)
      fun e s => Cpu.calls cs start = .error e s.machine ∧ Cpu.Exhausted e s.machine := by
  rintro _ rfl
  have hbalanced := Chronicle.leads_calls cs hroom _ (Chronicle.balanced_start hfault hholes)
  have hagree := Chronicle.agree_calls cs ⟨start, []⟩ start rfl
  cases hs : Chronicle.calls cs ⟨start, []⟩ <;> cases hw : Cpu.calls cs start <;>
    rw [hs] at hbalanced hagree <;> rw [hw] at hagree
  case ok.ok _ s _ w =>
    obtain ⟨-, rfl⟩ := hagree
    exact hbalanced.accounted hw
  case error.error e s _ w =>
    obtain ⟨rfl, rfl⟩ := hagree
    exact ⟨rfl, hbalanced⟩
  all_goals exact hagree.elim

def stalledCalls : List CpuCall := [.nmi, .stall 3, .step]

theorem exists_stalled {b : FlatMemory 0x10000} (hholes : b.holes = []) :
    ∃ v, Cpu.calls stalledCalls ⟨{}, b⟩ = .ok () v ∧ v.chip.cycles = 10 := by
  have hstall : Cpu.call (.stall 3) (⟨{ nmiPending := true }, b⟩ : Wired Cpu (FlatMemory 0x10000)) =
      .ok () ⟨{ nmiPending := true, remaining := 3 }, b⟩ := by
    dsimp only [Cpu.call, Cpu.stall]
    rw [if_pos (by decide)]
  have hroom : 0 + 3 + 7 < cycleLimit := by decide
  obtain ⟨v, hstep, -, hcycles, -⟩ := Cpu.Turns.exists_ok (Cpu.undone_nmi
    (w := ⟨{ nmiPending := true, remaining := 3 }, b⟩) rfl hholes ⟨rfl, rfl⟩ rfl) hroom
  have hcall : Cpu.call .step ⟨{ nmiPending := true, remaining := 3 }, b⟩ = .ok () v :=
    bind_ok hstep
  exact ⟨v, (bind_ok rfl).trans ((bind_ok hstall).trans (bind_ok hcall)), hcycles⟩

theorem cycles_are_accounted_stalled : ∃ s,
    Chronicle.calls stalledCalls ⟨⟨{}, .blank⟩, []⟩ = .ok () s ∧ s.machine.chip.cycles = 10 ∧
      s.machine.chip.cycles + s.machine.chip.remaining =
        7 * total Deed.interrupts s.deeds + 3 + total Deed.cost s.deeds := by
  obtain ⟨v, hrun, hcycles⟩ := exists_stalled (b := .blank) rfl
  have haccounted := cycles_are_accounted ⟨{}, .blank⟩ rfl rfl stalledCalls (by decide)
  generalize (FlatMemory.blank : FlatMemory 0x10000) = b at haccounted hrun ⊢
  have hends := haccounted ⟨⟨{}, b⟩, []⟩ rfl
  cases hs : Chronicle.calls stalledCalls ⟨⟨{}, b⟩, []⟩ with
  | error e s =>
    rw [hs] at hends
    exact absurd (hends.1.symm.trans hrun) nofun
  | ok _ s =>
    rw [hs] at hends
    have hv := hends.run
    rw [hrun] at hv
    cases hv
    have hbalance : s.machine.chip.cycles + s.machine.chip.remaining = 0 + 0 +
      7 * total Deed.interrupts s.deeds + 3 + total Deed.cost s.deeds := hends.balance
    exact ⟨s, rfl, hcycles, by omega⟩

end NesConsole
