import NesConsole.Proofs.Processor.Closure
import NesConsole.Proofs.Processor.Costs
import NesConsole.Proofs.Processor.Recorded

/-! Where the processor writes. Interrupt entries and most instructions write to the stack and the
zero page alone. Past them writes only one kind of instruction, one with an operand there that it
stores to, and it does so once, as the last of its accesses. -/
namespace NesConsole

section
variable {ε κ κ' α δ β : Type} {S : UInt16 → Prop}

def Recorded.Within (S : UInt16 → Prop) (r : Recorded β) : Prop := ∀ q ∈ r.writes, S q.1

abbrev WritesIn (S : UInt16 → Prop) (x : EStateM ε (Wired κ (Recorded β)) α) : Prop :=
  Keeps (fun w => w.bus.Within S) x

namespace WritesIn

theorem look (g : κ → α) : WritesIn S (Wired.look g : EStateM ε (Wired κ (Recorded β)) α) :=
  fun _ h => h

theorem update (g : κ → κ) : WritesIn S (Wired.update g : EStateM ε (Wired κ (Recorded β)) Unit) :=
  fun _ h => h

variable [CpuBus β]

theorem read (address : UInt16) :
    WritesIn S (Wired.read address : EStateM BusError (Wired κ (Recorded β)) UInt8) := by
  intro ⟨c, b, writes⟩ h
  dsimp only [Wired.read, Wired.onBus, Bus.read, Recorded.recording]
  cases (Bus.read address : EStateM BusError β UInt8) b <;> exact h

theorem write {address : UInt16} (ha : S address) (data : UInt8) :
    WritesIn S (Wired.write address data : EStateM BusError (Wired κ (Recorded β)) Unit) := by
  intro ⟨c, b, writes⟩ h
  dsimp only [Wired.write, Wired.onBus, Bus.write, Recorded.recording]
  cases (Bus.write address data : EStateM BusError β Unit) b with
  | ok _ b' => exact List.forall_mem_cons.2 ⟨ha, h⟩
  | error => exact h

/-- What instructions keep that keeps writes in `S`. -/
theorem closed : Closed S (fun w : Wired Registers (Recorded β) => w.bus.Within S)
    fun _ w => w.bus.Within S where
  read := read
  write := write
  change _ _ h := h

end WritesIn
end

/-! ### Instructions that write past the stack -/

def Low (address : UInt16) : Prop := address.toNat < 0x200

theorem low_stackAddress (sp : UInt8) : Low (stackAddress sp) := by
  have hsp := sp.toNat_lt
  rw [Low, stackAddress, toNat_wordOf]
  change 1 * 256 + sp.toNat < 0x200
  omega

theorem low_zeroPage (pointer : UInt8) : Low pointer.toUInt16 := by
  have hpointer := pointer.toNat_lt
  rw [Low, UInt8.toNat_toUInt16]
  omega

/-- Whether the operand may lie past the stack. -/
def AddressingMode.far : AddressingMode → Bool
  | .implied | .accumulator | .relative | .zeroPage | .zeroPageX | .zeroPageY => false
  | _ => true

def Instruction.storesFar (i : Instruction) : Bool := i.operation.stores && i.mode.far

section
variable {β : Type} [CpuBus β]

theorem AddressingMode.yields_low {mode : AddressingMode} (h : mode.far = false) :
    Yields (fun r => ∀ address, r.operand = .memory address → Low address)
      (mode.resolve : Execution β Resolved) := by
  have hzero {address : UInt16} {pointer : UInt8}
      (h : Operand.memory pointer.toUInt16 = .memory address) : Low address := by
    cases h
    exact low_zeroPage pointer
  cases mode with
  | implied | accumulator => exact .pure nofun
  | relative => exact .after fun _ => .pure nofun
  | zeroPage => exact .after fun _ => .pure fun _ => hzero
  | zeroPageX | zeroPageY => exact .after fun _ => .after fun _ => .pure fun _ => hzero
  | immediate | absolute | absoluteX | absoluteY | indirect | indexedIndirect
  | indirectIndexed => cases h

/-- All others stay on the stack and the zero page. -/
theorem WritesIn.instruction {i : Instruction} (h : i.storesFar = false) :
    WritesIn Low (i.run : Execution (Recorded β) Nat) := by
  have hlow : Yields (fun r => i.operation.stores = true → ∀ address, r.operand = .memory address →
      Low address) (i.mode.resolve : Execution (Recorded β) Resolved) := by
    cases hstores : i.operation.stores with
    | false => exact Yields.any.mono (fun _ h => h) (fun _ _ _ => nofun) fun _ _ h => h
    | true =>
      have hfar : i.mode.far = false := by simpa [Instruction.storesFar, hstores] using h
      exact (AddressingMode.yields_low hfar).mono (fun _ h => h) (fun _ _ h _ => h) fun _ _ h => h
  exact closed.instruction low_stackAddress hlow

end

/-! ### A store writes once -/

section
variable {ε κ α δ β : Type}

theorem Recorded.within_false {r : Recorded β} :
    r.Within (fun _ => False) ↔ r.writes = [] := by
  simp [Within, List.eq_nil_iff_forall_not_mem]

/-- A program that has written nothing when it is refused, and else writes once at most. -/
def WritesOnce (x : EStateM ε (Wired κ (Recorded β)) α) : Prop :=
  Leads (fun w => w.bus.writes = []) x (fun _ w => w.bus.writes.length ≤ 1)
    fun _ w => w.bus.writes = []

namespace WritesOnce

theorem after {x : EStateM ε (Wired κ (Recorded β)) δ} {f : δ → EStateM ε (Wired κ (Recorded β)) α}
    (hx : WritesIn (fun _ => False) x) (hf : ∀ d, WritesOnce (f d)) : WritesOnce (x >>= f) := by
  refine Leads.bind (M := fun _ w => w.bus.writes = []) ?_ hf
  exact Leads.mono hx (fun _ => Recorded.within_false.2) (fun _ _ => Recorded.within_false.1)
    fun _ _ => Recorded.within_false.1

variable [CpuBus β]

theorem store (data : UInt8) (operand : Operand) :
    WritesOnce (operand.store data : Execution (Recorded β) Unit) := by
  intro ⟨c, b, writes⟩ hnone
  obtain rfl : writes = [] := hnone
  cases operand with
  | memory address =>
    dsimp only [Operand.store, Wired.write, Wired.onBus, Bus.write, Recorded.recording]
    cases (Bus.write address data : EStateM BusError β Unit) b with
    | ok => exact Nat.le_refl 1
    | error => rfl
  | implied | accumulator | displacement => exact Nat.zero_le 1

theorem operation {op : Operation} (h : op.stores = true) (operand : Operand) :
    WritesOnce (op.run operand : Execution (Recorded β) Nat) := by
  cases op with
  | store op =>
    exact after (WritesIn.look _) fun _ => Leads.bind (store _ operand) fun _ _ hw => hw
  | modify op =>
    exact after (WritesIn.closed.load operand) fun _ => after (WritesIn.look _) fun _ =>
      after (WritesIn.update _) fun _ => Leads.bind (store _ operand) fun _ _ hw => hw
  | read | register | branch | flow => cases h

theorem instruction {i : Instruction} (h : i.operation.stores = true) :
    WritesOnce (i.run : Execution (Recorded β) Nat) :=
  after (WritesIn.update _) fun _ => after (WritesIn.closed.resolve _) fun r =>
    Leads.bind (operation h r.operand) fun _ _ hw => hw

end WritesOnce

variable [CpuBus β]

/-- A store takes its base cycles. -/
theorem Instruction.yields_zero {i : Instruction} (h : i.operation.stores = true) :
    Yields (· = 0) (i.run : Execution β Nat) := by
  have hbranch : ∀ op, i.operation ≠ .branch op := by
    intro op hop
    rw [hop] at h
    cases h
  have hpenalty : i.operation.pagePenalty = false := by
    cases hop : i.operation <;> rw [hop] at h <;> first | rfl | cases h
  refine .after fun _ => .after fun r => .bind (Operation.yields_zero hbranch _) fun n hn => ?_
  rw [hpenalty, Bool.and_false]
  exact .pure hn

end

/-! ### The processor -/

namespace Cpu
section
variable {α β : Type} {S : UInt16 → Prop}

theorem leads_registers {P : Wired Registers β → Prop} {Q : α → Wired Registers β → Prop}
    {E : Wired Registers β → Prop} {x : Execution β α} (h : Leads P x Q fun _ => E) :
    Leads (fun w => P ⟨w.chip.registers, w.bus⟩) (access (onRegisters x))
      (fun a w => Q a ⟨w.chip.registers, w.bus⟩) fun _ w => E ⟨w.chip.registers, w.bus⟩ := by
  intro ⟨c, b⟩ hw
  have hr := h ⟨c.registers, b⟩ hw
  dsimp only [access, EStateM.adaptExcept, onRegisters, Wired.onPart]
  cases hx : x ⟨c.registers, b⟩ <;> rw [hx] at hr <;> exact hr

variable [CpuBus β]

def fetched? (w : Wired Cpu β) : Option Instruction :=
  match (Bus.read w.chip.registers.pc : EStateM BusError β UInt8) w.bus with
  | .ok opcode _ => Instruction.decode? opcode
  | .error _ _ => none

theorem fetched?_of_read {w : Wired Cpu β} {opcode : UInt8} {b : β}
    (h : (Bus.read w.chip.registers.pc : EStateM BusError β UInt8) w.bus = .ok opcode b) :
    fetched? w = Instruction.decode? opcode := by
  unfold fetched?
  rw [h]

theorem exists_decode? {w : Wired Cpu β} {i : Instruction} (h : fetched? w = some i) :
    ∃ opcode, Instruction.decode? opcode = some i := by
  unfold fetched? at h
  cases hread : (Bus.read w.chip.registers.pc : EStateM BusError β UInt8) w.bus <;>
    rw [hread] at h
  case ok opcode b => exact ⟨opcode, h⟩
  case error => cases h

/-- An instruction is reported before it writes. -/
theorem leads_takeUp {Q : Unit → Wired Cpu (Recorded β) → Prop} {i : Instruction}
    {E : CpuError → Wired Cpu (Recorded β) → Prop}
    (h : Leads (fun w => w.bus.Within S) (carryOut i) Q E)
    (hE : ∀ e w, w.bus.Within S → E e w) : Leads (fun w => w.bus.Within S) (takeUp i) Q E := by
  have htrace : WritesIn S (traceLine (β := Recorded β)) := .traceLine WritesIn.read
  exact .takeUp (Leads.mono (keeps_access htrace) (fun _ h => h) (fun _ _ h => h) hE)
    (fun _ _ hw => hw) h

theorem writesIn_carryOut {i : Instruction} (h : i.storesFar = false) :
    WritesIn Low (carryOut (β := Recorded β) i) :=
  .bind (WritesIn.update _) fun _ => .bind (leads_registers (WritesIn.instruction h)) fun _ =>
    WritesIn.update _

theorem leads_carryOut_stores {i : Instruction} (h : i.operation.stores = true) :
    Leads (fun w : Wired Cpu (Recorded β) => w.bus.writes = []) (carryOut i)
      (fun _ w => w.chip.remaining = i.cycles ∧ w.bus.writes.length ≤ 1)
      fun _ w => w.bus.writes = [] := by
  have hextra : Yields (· = 0) (access (onRegisters (β := Recorded β) i.run)) :=
    .access (.onPart (Instruction.yields_zero h))
  have hremaining : KeepsView Cpu.remaining (access (onRegisters (β := Recorded β) i.run)) :=
    keepsView_access (.onPart _ fun _ _ => rfl)
  have hrun : Leads (fun w : Wired Cpu (Recorded β) =>
        w.bus.writes = [] ∧ w.chip.remaining = i.cycles) (access (onRegisters i.run))
      (fun n w => n = 0 ∧ w.chip.remaining = i.cycles ∧ w.bus.writes.length ≤ 1)
      fun _ w => w.bus.writes = [] := by
    intro w ⟨hnone, hcycles⟩
    have honce := leads_registers (WritesOnce.instruction h) w hnone
    have hzero := hextra w trivial
    have hkept := hremaining _ w hcycles
    cases hx : access (onRegisters i.run) w <;> rw [hx] at honce hzero hkept
    case ok => exact ⟨hzero, hkept, honce⟩
    case error => exact honce
  refine .bind (M := fun _ w => w.bus.writes = [] ∧ w.chip.remaining = i.cycles)
    (fun w hw => ⟨hw, rfl⟩) fun _ => .bind hrun fun n w ⟨hn, hcycles, honce⟩ => ⟨?_, honce⟩
  change w.chip.remaining + n = i.cycles
  rw [hn, hcycles, Nat.add_zero]

/-- An instruction writes low, or else it is one that may write further and writes once. -/
theorem executeNext_writes {w : Wired Cpu (Recorded β)} (hw : w.bus.writes = []) :
    match executeNext w with
    | .ok _ v => v.bus.Within Low ∨ ∃ i, fetched? w = some i ∧ i.storesFar = true ∧
        v.chip.remaining = i.cycles ∧ v.bus.writes.length ≤ 1
    | .error _ v => v.bus.Within Low := by
  have hlow {r : Recorded β} (h : r.writes = []) : r.Within Low := by
    intro q hq
    rw [h] at hq
    cases hq
  obtain ⟨c, b⟩ := w
  have hread := WritesIn.read (κ := Registers) (S := fun _ => False) c.registers.pc
    ⟨c.registers, b⟩ (Recorded.within_false.2 hw)
  cases hopcode : (Bus.read c.registers.pc : EStateM BusError (Recorded β) UInt8) b with
  | error e b' =>
    rw [Wired.read_error hopcode] at hread
    rw [executeNext_unread hopcode]
    exact hlow (Recorded.within_false.1 hread)
  | ok opcode b' =>
    rw [Wired.read_ok hopcode] at hread
    have hnone : b'.writes = [] := Recorded.within_false.1 hread
    rw [executeNext_read hopcode]
    cases hi : Instruction.decode? opcode with
    | none => exact hlow hnone
    | some i =>
      cases hfar : i.storesFar with
      | false =>
        have hr := leads_takeUp (writesIn_carryOut hfar) (fun _ _ h => h) ⟨c, b'⟩ (hlow hnone)
        dsimp only
        cases hx : takeUp i (⟨c, b'⟩ : Wired Cpu (Recorded β)) <;> rw [hx] at hr
        case ok => exact .inl hr
        case error => exact hr
      | true =>
        have hstores : i.operation.stores = true := (Bool.and_eq_true_iff.1 hfar).1
        have hr := leads_takeUp (S := fun _ => False)
          ((leads_carryOut_stores hstores).mono (fun _ => Recorded.within_false.1)
            (fun _ _ h => h) fun _ _ h => h)
          (fun _ _ => Recorded.within_false.1) ⟨c, b'⟩ hread
        dsimp only
        cases hx : takeUp i (⟨c, b'⟩ : Wired Cpu (Recorded β)) <;> rw [hx] at hr
        case ok => exact .inr ⟨i, (fetched?_of_read hopcode).trans hi, hfar, hr⟩
        case error => exact hlow hr

theorem writesIn_enter {entry : Entry} (h : entry ≠ .instruction) :
    WritesIn Low (enter (β := Recorded β) entry) := by
  have hinterrupt (vector : UInt16) : WritesIn Low (interrupt (β := Recorded β) vector) :=
    .bind (leads_registers (WritesIn.closed.enterInterrupt low_stackAddress vector)) fun _ =>
      WritesIn.update _
  cases entry with
  | nmi => exact .bind (WritesIn.update _) fun _ => hinterrupt _
  | irq => exact hinterrupt _
  | instruction => exact absurd rfl h

omit [CpuBus β] in
theorem bus_stateAfter_tick (w : Wired Cpu β) : (stateAfter tick w).bus = w.bus := by
  rw [stateAfter, tick_eq]
  by_cases hroom : w.chip.cycles + 1 < cycleLimit
  · rw [if_pos hroom]
    rfl
  · rw [if_neg hroom]

/-- What an instruction boundary turns to is recorded by its cycle. -/
theorem recorded_idle {w : Wired Cpu β} (hfault : w.chip.fault = none)
    (hidle : w.chip.remaining = 0) : match enter w.chip.boundary (recorder w) with
      | .ok _ v => recorded w = v.bus
      | .error _ v => (recorded w).writes = v.bus.writes := by
  have hclock := clock_idle (w := recorder w) hfault hidle
  rw [show (recorder w).chip.boundary = w.chip.boundary from rfl] at hclock
  cases henter : enter w.chip.boundary (recorder w) with
  | error e v =>
    rw [henter] at hclock
    change (stateAfter clock (recorder w)).bus.writes = v.bus.writes
    rw [stateAfter, hclock]
    rfl
  | ok _ v =>
    rw [henter] at hclock
    change (stateAfter clock (recorder w)).bus = v.bus
    rw [← bus_stateAfter_tick v, stateAfter, hclock, stateAfter]

/-- Neither a stopped processor nor one that waits writes. -/
theorem recorded_busy {w : Wired Cpu β} (h : w.chip.fault ≠ none ∨ w.chip.remaining ≠ 0) :
    (recorded w).writes = [] := by
  unfold recorded
  cases hstopped : w.chip.fault with
  | some e =>
    have hclock : clock (recorder w) = .error e (recorder w) := by
      rw [clock_eq_clockBy, clockBy, show (recorder w).chip.fault = some e from hstopped]
    rw [stateAfter, hclock]
    rfl
  | none =>
    have hbusy : w.chip.remaining ≠ 0 := h.resolve_left fun hfault => hfault hstopped
    have hclock : clock (recorder w) = tick (recorder w) := clock_busy hstopped hbusy
    rw [stateAfter, hclock, ← stateAfter, bus_stateAfter_tick]
    rfl

theorem fetched?_recorder (w : Wired Cpu β) : fetched? (recorder w) = fetched? w := by
  have hsame := Recorded.agree_recording [] (Bus.read w.chip.registers.pc) ⟨w.bus, []⟩ w.bus rfl
  change Alike _ ((Bus.read w.chip.registers.pc : EStateM BusError (Recorded β) UInt8) ⟨w.bus, []⟩)
    _ at hsame
  unfold fetched? recorder
  dsimp only
  cases hrecord : (Bus.read w.chip.registers.pc : EStateM BusError (Recorded β) UInt8)
      ⟨w.bus, []⟩ <;>
    cases hread : (Bus.read w.chip.registers.pc : EStateM BusError β UInt8) w.bus <;>
    rw [hrecord, hread] at hsame
  case ok.ok => exact congrArg Instruction.decode? hsame.1
  all_goals exact hsame.elim

/-- A write past the stack is the only one of its cycle. An instruction made it that may write
there, and takes its base cycles. -/
theorem far_write {w : Wired Cpu β} {q : UInt16 × UInt8} (h : q ∈ writes w) (hq : ¬Low q.1) :
    w.chip.fault = none ∧ w.chip.remaining = 0 ∧ w.chip.boundary = .instruction ∧
    ∃ i v, fetched? w = some i ∧ i.storesFar = true ∧ executeNext w = .ok () v ∧
      v.chip.remaining = i.cycles ∧ recorded w = ⟨v.bus, [q]⟩ := by
  have hlog : q ∈ (recorded w).writes := List.mem_reverse.1 h
  have hrunning : w.chip.fault = none ∧ w.chip.remaining = 0 := by
    by_contra hbusy
    rw [recorded_busy (not_and_or.1 hbusy)] at hlog
    cases hlog
  obtain ⟨hfault, hidle⟩ := hrunning
  have hrecorded := recorded_idle hfault hidle
  have hhigh {v : Wired Cpu (Recorded β)} (hv : (recorded w).writes = v.bus.writes) :
      ¬v.bus.Within Low := fun hlow => hq (hlow q (hv ▸ hlog))
  have hinstruction : w.chip.boundary = .instruction := by
    by_contra hentry
    have hlow := writesIn_enter (β := β) hentry (recorder w) nofun
    cases hx : enter w.chip.boundary (recorder w) <;> rw [hx] at hlow hrecorded
    case ok => exact hhigh (congrArg Recorded.writes hrecorded) hlow
    case error => exact hhigh hrecorded hlow
  refine ⟨hfault, hidle, hinstruction, ?_⟩
  rw [hinstruction] at hrecorded
  have hwrites := executeNext_writes (w := recorder w) rfl
  have hplain := Agree.executeNext (R := Recorded.Erases (β := β)) (recorder w) w ⟨rfl, rfl⟩
  change match executeNext (recorder w) with
    | .ok _ v => recorded w = v.bus
    | .error _ v => (recorded w).writes = v.bus.writes at hrecorded
  cases hx : executeNext (recorder w) <;> rw [hx] at hrecorded hwrites hplain
  case error => exact absurd hwrites (hhigh hrecorded)
  case ok _ r =>
    obtain ⟨i, hfetch, hfar, hcycles, honce⟩ :=
      hwrites.resolve_left (hhigh (congrArg Recorded.writes hrecorded))
    cases hy : executeNext w <;> rw [hy] at hplain
    case error => exact hplain.elim
    case ok _ v =>
      obtain ⟨-, hchip, hbus⟩ := hplain
      have hsingle : r.bus.writes = [q] := by
        rw [hrecorded] at hlog
        obtain ⟨p, hp⟩ := List.length_eq_one_iff.1
          (Nat.le_antisymm honce (List.length_pos_of_mem hlog))
        rw [hp] at hlog ⊢
        rw [List.mem_singleton.1 hlog]
      have hrecord : recorded w = ⟨v.bus, [q]⟩ := by rw [hrecorded, ← hbus, ← hsingle]
      rw [fetched?_recorder] at hfetch
      exact ⟨i, v, hfetch, hfar, rfl, by rw [← hchip, hcycles], hrecord⟩

end
end Cpu

end NesConsole
