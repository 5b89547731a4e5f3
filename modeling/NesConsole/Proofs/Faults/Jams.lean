import NesConsole.Proofs.Processor.CycleLedger

/-! A processor that was refused a cycle goes no further, on whatever bus. Each cycle and each step
to come is refused with the same error, makes no access and leaves everything as it is, until a
reset succeeds. An illegal opcode stops it with nothing changed but by the read of that opcode. -/
namespace NesConsole
namespace Cpu

/-- The processor goes no further: it has stopped, or it waits and its cycles cannot be counted. -/
def Stuck (e : CpuError) (c : Cpu) : Prop :=
  c.fault = some e ∨
    (c.fault = none ∧ e = .counterFull ∧ c.remaining ≠ 0 ∧ ¬c.cycles + 1 < cycleLimit)

section
variable {β : Type} {w w' : Wired Cpu β} {e : CpuError}

theorem fault_of_tick (hfault : w.chip.fault = none) (h : tick w = .ok () w') :
    w'.chip.fault = none := by
  obtain ⟨c, b⟩ := w
  by_cases hroom : c.cycles + 1 < cycleLimit
  · rw [tick, if_pos hroom] at h
    cases h
    exact hfault
  · rw [tick, if_neg hroom] at h
    cases h

variable [CpuBus β]

theorem Stuck.clock (h : w.chip.Stuck e) : clock w = .error e w := by
  obtain ⟨c, b⟩ := w
  unfold Cpu.clock
  rcases h with hfault | ⟨hfault, rfl, hbusy, hfull⟩
  · have hfault : c.fault = some e := hfault
    simp only [hfault]
  · have hfault : c.fault = none := hfault
    simp only [hfault, if_neg hbusy, tick, if_neg hfull]

/-- What an instruction boundary turns to does not stop the processor, and takes a cycle at
least. -/
theorem running_of_enter (hfault : w.chip.fault = none)
    (h : enter w.chip.boundary w = .ok () w') : w'.chip.fault = none ∧ w'.chip.remaining ≠ 0 := by
  have hkept := keepsView_enter (β := β) (f := Cpu.fault) ⟨fun _ _ => rfl, fun _ _ => rfl⟩
    (fun _ => rfl) w.chip.boundary _ w hfault
  have htakes := leads_enter_takes w.chip.boundary w trivial
  rw [h] at hkept htakes
  exact ⟨hkept, Nat.one_le_iff_ne_zero.1 htakes⟩

/-- A refused cycle leaves the processor stuck. -/
theorem stuck_of_clock (h : clock w = .error e w') : w'.chip.Stuck e := by
  rcases clock_refused h with ⟨hfault, rfl⟩ | ⟨-, -, v, -, rfl⟩ | ⟨hfault, rfl, hfull, hfrom⟩
  · exact .inl hfault
  · exact .inl rfl
  · rcases hfrom with ⟨hbusy, rfl⟩ | ⟨-, henter⟩
    · exact .inr ⟨hfault, rfl, hbusy, hfull⟩
    · obtain ⟨hrunning, hbusy⟩ := running_of_enter hfault henter
      exact .inr ⟨hrunning, rfl, hbusy, hfull⟩

theorem running_of_clock (h : clock w = .ok () w') : w'.chip.fault = none := by
  obtain ⟨hfault, ⟨-, htick⟩ | ⟨-, v, henter, htick⟩⟩ := clock_passed h
  · exact fault_of_tick hfault htick
  · exact fault_of_tick (running_of_enter hfault henter).1 htick

/-! ### Steps, and what a host does -/

theorem leads_clock_stuck : Leads (fun _ : Wired Cpu β => True) Cpu.clock (fun _ _ => True)
    fun e w => w.chip.Stuck e := by
  intro w _
  cases h : Cpu.clock w with
  | ok => trivial
  | error e v => exact stuck_of_clock h

theorem leads_clocks_stuck (n : Nat) : Leads (fun _ : Wired Cpu β => True) (clocks n)
    (fun _ _ => True) fun e w => w.chip.Stuck e := by
  induction n with
  | zero => exact .pure fun _ h => h
  | succ n ih => exact .bind leads_clock_stuck fun _ => ih

theorem leads_step_stuck : Leads (fun _ : Wired Cpu β => True) Cpu.step (fun _ _ => True)
    fun e w => w.chip.Stuck e := by
  refine .bind (M := fun _ _ => True) (fun _ h => h) fun before => ?_
  refine .bind (leads_clocks_stuck before) fun _ => ?_
  refine .bind (M := fun _ _ => True) (fun _ h => h) fun start => ?_
  refine .bind leads_clock_stuck fun _ => ?_
  refine .bind (M := fun _ _ => True) (fun _ h => h) fun beyond => ?_
  exact .bind (leads_clocks_stuck beyond) fun _ _ _ => trivial

theorem Stuck.step (h : w.chip.Stuck e) : Cpu.step w = .error e w := by
  have hclock := h.clock
  rw [step_eq_turn]
  cases w.chip.remaining with
  | zero => exact (bind_ok rfl).trans ((bind_ok rfl).trans (bind_error hclock))
  | succ n => exact bind_error (bind_error hclock)

end
end Cpu

inductive CpuAct where
  | call (call : CpuCall)
  | reset

namespace Cpu

/-- As `v` was, but for the interrupt lines, the cycles to wait and the bus. -/
structure Kept {β : Type} (v u : Wired Cpu β) : Prop where
  registers : u.chip.registers = v.chip.registers
  cycles : u.chip.cycles = v.chip.cycles
  fault : u.chip.fault = v.chip.fault

section
variable {β : Type} {w u v : Wired Cpu β} {e : CpuError}

theorem Kept.refl (w : Wired Cpu β) : Kept w w := ⟨rfl, rfl, rfl⟩

theorem Kept.trans (h : Kept w v) (h' : Kept v u) : Kept w u :=
  ⟨h'.registers.trans h.registers, h'.cycles.trans h.cycles, h'.fault.trans h.fault⟩

variable [CpuBus β]

def act : CpuAct → EStateM CpuError (Wired Cpu β) Unit
  | .call c => call c
  | .reset => reset

def afterActs (acts : List CpuAct) (w : Wired Cpu β) : Wired Cpu β :=
  acts.foldl (fun w a => stateAfter (act a) w) w

def ResetsFail : List CpuAct → Wired Cpu β → Prop
  | [], _ => True
  | a :: acts, w =>
    (a = .reset → ∃ e u, reset w = .error e u) ∧ ResetsFail acts (stateAfter (act a) w)

/-- A call leaves a stuck processor stuck, and its bus alone. -/
theorem Stuck.call (h : w.chip.Stuck e) (c : CpuCall) :
    (stateAfter (Cpu.call c) w).chip.Stuck e ∧ Kept w (stateAfter (Cpu.call c) w) ∧
      (stateAfter (Cpu.call c) w).bus = w.bus := by
  cases c with
  | clock =>
    have hcall : Cpu.call .clock w = .error e w := h.clock
    rw [stateAfter, hcall]
    exact ⟨h, .refl w, rfl⟩
  | step =>
    have hcall : Cpu.call .step w = .error e w := bind_error h.step
    rw [stateAfter, hcall]
    exact ⟨h, .refl w, rfl⟩
  | nmi | setIrq => exact ⟨h, ⟨rfl, rfl, rfl⟩, rfl⟩
  | stall cycles =>
    rw [stateAfter, Cpu.call, stall_eq]
    by_cases hroom : w.chip.remaining + cycles < waitLimit
    · rw [if_pos hroom]
      refine ⟨h.imp_right fun ⟨hfault, he, hbusy, hfull⟩ => ⟨hfault, he, ?_, hfull⟩,
        ⟨rfl, rfl, rfl⟩, rfl⟩
      exact fun hzero => hbusy (Nat.eq_zero_of_add_eq_zero_right hzero)
    · rw [if_neg hroom]
      exact ⟨h, .refl w, rfl⟩

/-- What reads and reports leave alone of a bus, as they do the cells of a memory. -/
structure Unwritten {γ : Type} (f : β → γ) : Prop where
  read (address : UInt16) (x : γ) :
    Keeps (fun b => f b = x) (Bus.read address : EStateM BusError β UInt8)
  report (event : CpuEvent) (b : β) : f (CpuBus.report event b) = f b

/-- A reset that fails leaves the processor as it is and writes nothing. One that succeeds gets the
processor going. -/
theorem reset_outcome (w : Wired Cpu β) : match reset w with
    | .ok _ u => u.chip.fault = none
    | .error _ u => u.chip = w.chip ∧
        ∀ {γ : Type} (f : β → γ), Unwritten f → f u.bus = f w.bus := by
  have hchip : KeepsView (id : Cpu → Cpu)
      (readWord resetVector : EStateM BusError (Wired Cpu β) UInt16) :=
    .bind (.read _) fun _ => .bind (.read _) fun _ => .pure _
  have hbus {γ : Type} {f : β → γ} (hf : Unwritten f) : Keeps (fun u => f u.bus = f w.bus)
      (readWord resetVector : EStateM BusError (Wired Cpu β) UInt16) :=
    .bind (.onBus (hf.read _ _)) fun _ => .bind (.onBus (hf.read _ _)) fun _ => .pure _
  have hvector := keepsView_access hchip w.chip w rfl
  have hkept {γ : Type} {f : β → γ} (hf : Unwritten f) := keeps_access (hbus hf) w rfl
  unfold reset
  cases hx : access (readWord resetVector) w with
  | ok pc u => rw [bind_ok hx]; rfl
  | error e u =>
    rw [hx] at hvector
    rw [bind_error hx]
    refine ⟨hvector, fun f hf => ?_⟩
    have hf := hkept hf
    rwa [hx] at hf

/-- How a processor that got stuck at `v` is found at `u`: as it was, but for its interrupt lines
and its cycles to wait. It refuses every cycle, and a reset alone touches its bus. -/
structure Frozen (e : CpuError) (v u : Wired Cpu β) : Prop extends Kept v u where
  clock : Cpu.clock u = .error e u
  step : Cpu.step u = .error e u
  quiet (c : CpuCall) : (stateAfter (Cpu.call c) u).bus = u.bus
  memory {γ : Type} (f : β → γ) : Unwritten f → f u.bus = f v.bus
  reset : match Cpu.reset u with
    | .ok _ t => t.chip.fault = none
    | .error _ t => t.chip = u.chip

theorem Stuck.frozen (h : u.chip.Stuck e) (hkept : Kept v u)
    (hmemory : ∀ {γ : Type} (f : β → γ), Unwritten f → f u.bus = f v.bus) : Frozen e v u where
  toKept := hkept
  clock := h.clock
  step := h.step
  quiet c := (h.call c).2.2
  memory := hmemory
  reset := by
    have hr := reset_outcome u
    cases hx : Cpu.reset u <;> rw [hx] at hr
    case ok => exact hr
    case error => exact hr.1

/-- An act that is no successful reset leaves a stuck processor stuck. Failed resets alone reach
its bus. -/
theorem Stuck.act (h : w.chip.Stuck e) {a : CpuAct}
    (ha : a = .reset → ∃ e u, Cpu.reset w = .error e u) :
    (stateAfter (Cpu.act a) w).chip.Stuck e ∧ Kept w (stateAfter (Cpu.act a) w) ∧
      (∀ {γ : Type} (f : β → γ), Unwritten f → f (stateAfter (Cpu.act a) w).bus = f w.bus) ∧
      (a ≠ .reset → (stateAfter (Cpu.act a) w).bus = w.bus) := by
  cases a with
  | call c =>
    obtain ⟨hstuck, hkept, hbus⟩ := h.call c
    exact ⟨hstuck, hkept, fun f _ => congrArg f hbus, fun _ => hbus⟩
  | reset =>
    obtain ⟨f, u, hfail⟩ := ha rfl
    have hr := reset_outcome w
    have hafter : stateAfter (Cpu.act .reset) w = u := by rw [stateAfter, Cpu.act, hfail]
    rw [hfail] at hr
    obtain ⟨hchip, hmemory⟩ := hr
    rw [hafter]
    exact ⟨hchip ▸ h, ⟨by rw [hchip], by rw [hchip], by rw [hchip]⟩, hmemory,
      fun hne => absurd rfl hne⟩

/-- Nothing but a reset that succeeds gets a stuck processor on. -/
theorem Stuck.afterActs (h : w.chip.Stuck e) {acts : List CpuAct} (hacts : ResetsFail acts w) :
    Frozen e w (afterActs acts w) ∧ (.reset ∉ acts → (Cpu.afterActs acts w).bus = w.bus) := by
  suffices hall : (Cpu.afterActs acts w).chip.Stuck e ∧ Kept w (Cpu.afterActs acts w) ∧
      (∀ {γ : Type} (f : β → γ), Unwritten f → f (Cpu.afterActs acts w).bus = f w.bus) ∧
      (.reset ∉ acts → (Cpu.afterActs acts w).bus = w.bus) from
    ⟨hall.1.frozen hall.2.1 hall.2.2.1, hall.2.2.2⟩
  induction acts generalizing w with
  | nil => exact ⟨h, .refl w, fun _ _ => rfl, fun _ => rfl⟩
  | cons a acts ih =>
    obtain ⟨hreset, hrest⟩ := hacts
    obtain ⟨hstuck, hkept, hmemory, hbus⟩ := h.act hreset
    obtain ⟨hstuck', hkept', hmemory', hbus'⟩ := ih hstuck hrest
    refine ⟨hstuck', hkept.trans hkept', fun f hf => (hmemory' f hf).trans (hmemory f hf),
      fun hnone => ?_⟩
    rw [List.mem_cons, not_or] at hnone
    exact (hbus' hnone.2).trans (hbus (Ne.symm hnone.1))

/-! ### Illegal opcodes -/

omit [CpuBus β] in
/-- The registers run a program that the bus alone refuses. -/
theorem leads_access_bus {α : Type} (x : EStateM BusError (Wired Cpu β) α) :
    Leads (fun _ => True) (access x) (fun _ _ => True) fun e _ => ∃ f, e = .bus f := by
  intro w _
  dsimp only [access, EStateM.adaptExcept]
  cases x w with
  | ok => trivial
  | error f v => exact ⟨f, rfl⟩

theorem leads_interrupt_bus (vector : UInt16) : Leads (fun _ : Wired Cpu β => True)
    (interrupt vector) (fun _ _ => True) fun e _ => ∃ f, e = .bus f :=
  .bind (leads_access_bus _) fun _ _ _ => trivial

theorem leads_takeUp_bus (i : Instruction) : Leads (fun _ : Wired Cpu β => True) (takeUp i)
    (fun _ _ => True) fun e _ => ∃ f, e = .bus f := by
  refine .takeUp (leads_access_bus _) (fun _ _ _ => trivial) ?_
  refine .bind (M := fun _ _ => True) (fun _ h => h) fun _ => ?_
  exact .bind (leads_access_bus _) fun _ _ _ => trivial

/-- An illegal opcode was met between `w` and `v`: it was read at the program counter, and nothing
changed but that the processor has stopped. -/
structure MetIllegal (opcode : UInt8) (address : UInt16) (w v : Wired Cpu β) : Prop where
  idle : w.chip.remaining = 0
  illegal : Instruction.decode? opcode = none
  place : address = w.chip.registers.pc
  chip : v.chip = { w.chip with fault := some (.illegalOpcode opcode address) }
  bus : ∃ b, Bus.read address w.bus = .ok opcode b ∧
    v.bus = CpuBus.report (.halted (.illegalOpcode opcode address)) b

theorem metIllegal_of_enter {opcode : UInt8} {address : UInt16} (hidle : w.chip.remaining = 0)
    (h : enter w.chip.boundary w = .error (.illegalOpcode opcode address) v) :
    MetIllegal opcode address w (halted (.illegalOpcode opcode address) v) := by
  have hbus {x : EStateM CpuError (Wired Cpu β) Unit} (hx : Leads (fun _ => True) x
      (fun _ _ => True) fun e _ => ∃ f, e = .bus f) {u : Wired Cpu β} :
      x u ≠ .error (.illegalOpcode opcode address) v := by
    intro he
    have hr := hx u trivial
    rw [he] at hr
    obtain ⟨f, hf⟩ := hr
    cases hf
  cases hboundary : w.chip.boundary with
  | nmi =>
    rw [hboundary] at h
    exact absurd h (hbus (.bind (M := fun _ _ => True) (fun _ h => h) fun _ =>
      leads_interrupt_bus nmiVector))
  | irq =>
    rw [hboundary] at h
    exact absurd h (hbus (leads_interrupt_bus irqVector))
  | instruction =>
    rw [hboundary] at h
    obtain ⟨c, b⟩ := w
    have h : executeNext ⟨c, b⟩ = .error (.illegalOpcode opcode address) v := h
    cases hread : (Bus.read c.registers.pc : EStateM BusError β UInt8) b with
    | error f b' =>
      rw [executeNext_unread hread] at h
      cases h
    | ok byte b' =>
      rw [executeNext_read hread] at h
      cases hi : Instruction.decode? byte with
      | some i =>
        rw [hi] at h
        exact absurd h (hbus (leads_takeUp_bus i))
      | none =>
        rw [hi] at h
        cases h
        exact ⟨hidle, hi, rfl, rfl, b', hread, rfl⟩

/-- What stops a running processor with an illegal opcode is the cycle after what was under way. -/
theorem metIllegal_of_step {opcode : UInt8} {address : UInt16} (hfault : w.chip.fault = none)
    (h : Cpu.step w = .error (.illegalOpcode opcode address) v) :
    clocks w.chip.remaining w = .ok () (rested w) ∧
      Cpu.clock (rested w) = .error (.illegalOpcode opcode address) v ∧
      MetIllegal opcode address (rested w) v := by
  rcases clocks_waiting hfault (Nat.le_refl _) with hwait | ⟨-, u, hwait⟩
  case inr =>
    rw [step_eq_turn, bind_error hwait] at h
    cases h
  have hturn := turn_idle (w := rested w) hfault (rested_remaining w)
  have hclock := clock_idle (w := rested w) hfault (rested_remaining w)
  rw [step_eq_turn, bind_ok hwait] at h
  change turn (rested w) = _ at h
  cases henter : enter (rested w).chip.boundary (rested w) with
  | ok _ u =>
    rw [henter] at hturn
    obtain ⟨-, -, -, hok | ⟨-, t, herror⟩⟩ := hturn
    · rw [hok] at h
      cases h
    · rw [herror] at h
      cases h
  | error f u =>
    rw [henter] at hturn hclock
    dsimp only at hturn hclock
    rw [hturn] at h
    cases h
    exact ⟨hwait, hclock, metIllegal_of_enter (rested_remaining w) henter⟩

theorem metIllegal_of_clock {opcode : UInt8} {address : UInt16} (hfault : w.chip.fault = none)
    (h : Cpu.clock w = .error (.illegalOpcode opcode address) v) :
    rested w = w ∧ MetIllegal opcode address w v := by
  rcases clock_refused h with ⟨hstopped, -⟩ | ⟨-, hidle, u, henter, rfl⟩ | ⟨-, hfull, -⟩
  · rw [hfault] at hstopped
    cases hstopped
  · exact ⟨by rw [rested, hidle, waited_zero], metIllegal_of_enter hidle henter⟩
  · cases hfull

/-- The memory behind an illegal opcode is as it was. -/
theorem MetIllegal.memory {opcode : UInt8} {address : UInt16} (h : MetIllegal opcode address w v)
    {γ : Type} {f : β → γ} (hf : Unwritten f) : f v.bus = f w.bus := by
  obtain ⟨b, hread, hbus⟩ := h.bus
  have hkept := hf.read address _ w.bus rfl
  rw [hread] at hkept
  rw [hbus, hf.report]
  exact hkept

end

/-- A processor that a cycle or a step has refused is frozen. Until a reset succeeds it refuses
every cycle and step with the same error, touches its bus at failed resets only, and keeps its
registers, its count of cycles and its memory. An illegal opcode stops it before the instruction
changes anything. -/
theorem jams_are_frozen {β : Type} [CpuBus β] {w v : Wired Cpu β} {c : CpuCall} {e : CpuError}
    (hc : c = .clock ∨ c = .step) (h : call c w = .error e v) :
    (e ≠ .counterFull → v.chip.fault = some e) ∧
      (∀ acts, ResetsFail acts v → Frozen e v (afterActs acts v) ∧
        (.reset ∉ acts → (afterActs acts v).bus = v.bus)) ∧
      (w.chip.fault = none → ∀ opcode address, e = .illegalOpcode opcode address →
        clocks w.chip.remaining w = .ok () (rested w) ∧
          clock (rested w) = .error e v ∧ MetIllegal opcode address (rested w) v ∧
          ∀ {γ : Type} (f : β → γ), Unwritten f → f v.bus = f w.bus) := by
  have hstuck : v.chip.Stuck e := by
    rcases hc with rfl | rfl
    · exact stuck_of_clock h
    · have hleads : Leads (fun _ : Wired Cpu β => True) (call .step) (fun _ _ => True)
          fun e w => w.chip.Stuck e := .bind leads_step_stuck fun _ _ _ => trivial
      have hr := hleads w trivial
      rw [h] at hr
      exact hr
  refine ⟨fun he => hstuck.resolve_right fun hfull => he hfull.2.1, fun _ => hstuck.afterActs, ?_⟩
  rintro hfault opcode address rfl
  have hmet : clocks w.chip.remaining w = .ok () (rested w) ∧
      clock (rested w) = .error (.illegalOpcode opcode address) v ∧
      MetIllegal opcode address (rested w) v := by
    rcases hc with rfl | rfl
    · obtain ⟨hrested, hmet⟩ := metIllegal_of_clock hfault h
      have hidle : w.chip.remaining = 0 := hrested ▸ hmet.idle
      rw [hrested]
      exact ⟨by rw [hidle]; rfl, h, hmet⟩
    · cases hstep : step w with
      | ok n u =>
        rw [call, bind_ok hstep] at h
        cases h
      | error f u =>
        rw [call, bind_error hstep] at h
        cases h
        exact metIllegal_of_step hfault hstep
  exact ⟨hmet.1, hmet.2.1, hmet.2.2, fun _ hf => hmet.2.2.memory hf⟩

end Cpu

theorem FlatMemory.unwritten_cells {size : Nat} :
    Cpu.Unwritten (fun m : FlatMemory size => m.cells) where
  read address x m h := by
    dsimp only [Bus.read]
    cases m.inHole (UInt16.ofNat (address.toNat % size)) <;> exact h
  report _ _ := rfl

namespace Cpu

/-- At an opcode that no instruction has, with no reset vector to come back by. -/
def beforeJam : Wired Cpu (FlatMemory 4) :=
  ⟨{ registers := { pc := 2 }, remaining := 1 }, { cells := #v[0, 0, 0x02, 0], holes := [(1, 1)] }⟩

def onceJammed : Wired Cpu (FlatMemory 4) := stateAfter step beforeJam

/-- An NMI, a stall and a reset that fails, and the next step is refused with the same opcode over
the same memory. -/
theorem jams_are_frozen_reset : call .step beforeJam = .error (.illegalOpcode 2 2) onceJammed ∧
    ResetsFail [.call .nmi, .call (.stall 3), .reset, .call .clock] onceJammed ∧
    step (afterActs [.call .nmi, .call (.stall 3), .reset, .call .clock] onceJammed) =
      .error (.illegalOpcode 2 2)
        (afterActs [.call .nmi, .call (.stall 3), .reset, .call .clock] onceJammed) ∧
    onceJammed.chip.registers.pc = 2 ∧ onceJammed.bus.cells = beforeJam.bus.cells ∧
    (afterActs [.call .nmi, .call (.stall 3), .reset, .call .clock] onceJammed).bus.cells =
      beforeJam.bus.cells := by
  have hstep : call .step beforeJam = .error (.illegalOpcode 2 2) onceJammed := rfl
  have hfail : ResetsFail [.call .nmi, .call (.stall 3), .reset, .call .clock] onceJammed :=
    ⟨nofun, nofun, fun _ => ⟨_, _, rfl⟩, nofun, trivial⟩
  obtain ⟨-, hacts, hmet⟩ := jams_are_frozen (.inr rfl) hstep
  have hfrozen := (hacts _ hfail).1
  obtain ⟨-, -, hmet, hmemory⟩ := hmet rfl 2 2 rfl
  have hjammed := hmemory _ FlatMemory.unwritten_cells
  exact ⟨hstep, hfail, hfrozen.step, congrArg (·.registers.pc) hmet.chip, hjammed,
    (hfrozen.memory _ FlatMemory.unwritten_cells).trans hjammed⟩

end Cpu
end NesConsole
