import NesConsole.Proofs.Processor.Closure
import NesConsole.Proofs.StepRule
import NesConsole.Proofs.Safety.Whole

/-! Refusals that a program of the processor can meet. A trap is a refusal that no device gives: a
byte past the end of a memory, a sum that leaves its width, a counter at its end. On a bus without
traps the processor meets none, until its cycles cannot be counted any more. -/
namespace NesConsole

def BusError.isTrap : BusError → Bool
  | .noByte _ | .overflow => true
  | _ => false

def CpuError.isTrap : CpuError → Bool
  | .bus error => error.isTrap
  | .counterFull => true
  | .illegalOpcode _ _ => false

def ConsoleError.isTrap : ConsoleError → Bool
  | .cpu error => error.isTrap
  | .bus error => error.isTrap
  | .load _ => false

class TrapFree {β : Type} [Bus β] (P : β → Prop) : Prop where
  read (address : UInt16) : Leads P (Bus.read address : EStateM _ β _) (fun _ => P)
    fun e b => e.isTrap = false ∧ P b
  write (address : UInt16) (data : UInt8) : Leads P (Bus.write address data : EStateM _ β _)
    (fun _ => P) fun e b => e.isTrap = false ∧ P b

def Abides {κ β α : Type} (P : β → Prop) (x : EStateM BusError (Wired κ β) α) : Prop :=
  Leads (fun w => P w.bus) x (fun _ w => P w.bus) fun e w => e.isTrap = false ∧ P w.bus

namespace Abides
variable {κ κ' β α : Type} {P : β → Prop}

theorem onPart {get : κ → κ'} {put : κ' → κ → κ} {x : EStateM BusError (Wired κ' β) α}
    (h : Abides P x) : Abides P (Wired.onPart get put x) := by
  intro ⟨c, b⟩ hb
  have hr := h ⟨get c, b⟩ hb
  dsimp only [Wired.onPart]
  cases hx : x ⟨get c, b⟩ <;> rw [hx] at hr <;> exact hr

theorem onBus {x : EStateM BusError β α}
    (h : Leads P x (fun _ => P) fun e b => e.isTrap = false ∧ P b) :
    Abides P (Wired.onBus (κ := κ) x) := by
  intro ⟨c, b⟩ hb
  have hr := h b hb
  dsimp only [Wired.onBus]
  cases hx : x b <;> rw [hx] at hr <;> exact hr

theorem read [Bus β] [TrapFree P] (address : UInt16) :
    Abides P (Wired.read address : EStateM _ (Wired κ β) _) :=
  onBus (TrapFree.read address)

/-- What is built of accesses ends without a trap as they do. -/
theorem built [Bus β] [TrapFree P] {N : Nat} {s t : Stage} {x : Program α}
    (h : Built (fun _ => True) N s t x) : Abides P (x β) := by
  have hclosed : Closed (fun _ => True) (fun w : Wired Registers β => P w.bus)
      fun e w => e.isTrap = false ∧ P w.bus :=
    { read := read, write := fun _ data => onBus (TrapFree.write _ data),
      change := fun _ _ hb => hb }
  exact hclosed.built h

end Abides

namespace Yields
variable {β α : Type} {Q : α → Prop}

theorem access {x : EStateM BusError (Wired Cpu β) α} (h : Yields Q x) :
    Yields Q (Cpu.access x) := by
  intro w _
  have hr := h w trivial
  dsimp only [Cpu.access, EStateM.adaptExcept]
  cases hx : x w <;> rw [hx] at hr <;> exact hr

end Yields

section
variable {β : Type}

theorem BranchOp.yields_run (op : BranchOp) (operand : Operand) :
    Yields (· ≤ 2) (op.run operand : Execution β Nat) := by
  refine .after fun r => ?_
  cases operand with
  | displacement offset =>
    cases htaken : op.holds r.p with
    | true =>
      refine .after fun _ => .pure ?_
      split <;> decide
    | false => exact .pure (Nat.zero_le 2)
  | implied | accumulator | memory => exact .pure (Nat.zero_le 2)

variable [Bus β]

/-- Only branches answer cycles of their own. -/
theorem Operation.yields_zero {op : Operation} (h : ∀ b, op ≠ .branch b)
    (operand : Operand) : Yields (· = 0) (op.run operand : Execution β Nat) := by
  cases op with
  | read op => exact .after fun _ => .after fun _ => .pure rfl
  | store op => exact .after fun _ => .after fun _ => .pure rfl
  | modify op =>
    exact .after fun _ => .after fun _ => .after fun _ => .after fun _ => .after fun _ => .pure rfl
  | register op => exact .after fun _ => .pure rfl
  | branch op => exact absurd rfl (h op)
  | flow op => exact .after fun _ => .pure rfl

theorem Operation.yields_run (op : Operation) (operand : Operand) :
    Yields (· ≤ 2) (op.run operand : Execution β Nat) := by
  have hzero (h : ∀ b, op ≠ .branch b) : Yields (· ≤ 2) (op.run operand : Execution β Nat) :=
    (yields_zero h operand).mono (fun _ hw => hw)
      (fun _ _ hn => Nat.le_trans (Nat.le_of_eq hn) (Nat.zero_le 2)) fun _ _ hw => hw
  cases op with
  | branch op => exact op.yields_run operand
  | read | store | modify | register | flow => exact hzero nofun

theorem Instruction.yields_run (i : Instruction) :
    Yields (· ≤ 3) (i.run : Execution β Nat) := by
  refine .after fun _ => .after fun r => .bind (i.operation.yields_run r.operand) fun n hn => ?_
  refine .pure ?_
  split <;> omega

end

theorem Instruction.decode?_cycles {opcode : UInt8} {i : Instruction}
    (h : decode? opcode = some i) : 1 ≤ i.cycles ∧ i.cycles ≤ 8 :=
  of_decide_eq_true (of_decode? (p := fun i => decide (1 ≤ i.cycles ∧ i.cycles ≤ 8)) (by decide) h)

class CpuTrapFree {β : Type} [CpuBus β] (P : β → Prop) : Prop extends TrapFree P where
  report (event : CpuEvent) (b : β) : P b → P (CpuBus.report event b)

namespace Cpu
section
variable {β α : Type} {P : β → Prop} {R : Nat → Prop}

/-- An access that does not touch the waiting cycles. -/
theorem leads_access {Q : α → Prop} {x : EStateM BusError (Wired Cpu β) α} (h : Abides P x)
    (hv : KeepsView Cpu.remaining x) (hQ : Yields Q x) :
    Leads (fun w => P w.bus ∧ R w.chip.remaining) (access x)
      (fun a w => Q a ∧ P w.bus ∧ R w.chip.remaining)
      fun e w => e.isTrap = false ∧ P w.bus ∧ R w.chip.remaining := by
  intro w ⟨hP, hR⟩
  have hp := h w hP
  have hr := hv _ w rfl
  have hq := hQ w trivial
  dsimp only [access, EStateM.adaptExcept]
  cases hx : x w <;> rw [hx] at hp hr hq
  case ok => exact ⟨hq, hp, hr.symm ▸ hR⟩
  case error => exact ⟨hp.1, hp.2, hr.symm ▸ hR⟩

variable [CpuBus β] [CpuTrapFree P]

theorem leads_read (address : UInt16) :
    Leads (fun w : Wired Cpu β => P w.bus ∧ R w.chip.remaining) (access (Wired.read address))
      (fun _ w => P w.bus ∧ R w.chip.remaining)
      fun e w => e.isTrap = false ∧ P w.bus ∧ R w.chip.remaining :=
  (leads_access (.read address) (.read address) .any).mono (fun _ h => h)
    (fun _ _ h => h.2) fun _ _ h => h

theorem leads_traceLine :
    Leads (fun w : Wired Cpu β => P w.bus ∧ R w.chip.remaining) (access traceLine)
      (fun _ w => P w.bus ∧ R w.chip.remaining)
      fun e w => e.isTrap = false ∧ P w.bus ∧ R w.chip.remaining := by
  have habides : Abides P (traceLine : EStateM _ (Wired Cpu β) _) := .traceLine Abides.read
  exact (leads_access habides (keepsView_traceLine _) .any).mono (fun _ h => h)
    (fun _ _ h => h.2) fun _ _ h => h

theorem leads_carryOut {i : Instruction} (h : 1 ≤ i.cycles ∧ i.cycles ≤ 8) :
    Leads (fun w : Wired Cpu β => P w.bus ∧ w.chip.remaining ≤ 8) (carryOut i)
      (fun _ w => P w.bus ∧ 1 ≤ w.chip.remaining ∧ w.chip.remaining ≤ 11)
      fun e w => e.isTrap = false ∧ P w.bus ∧ w.chip.remaining ≤ 8 := by
  have hrun : Leads (fun w : Wired Cpu β => P w.bus ∧ w.chip.remaining = i.cycles)
      (access (onRegisters i.run))
      (fun n w => n ≤ 3 ∧ P w.bus ∧ w.chip.remaining = i.cycles)
      fun e w => e.isTrap = false ∧ P w.bus ∧ w.chip.remaining = i.cycles :=
    leads_access (R := (· = i.cycles)) (x := onRegisters i.run)
      (.onPart (.built (.instruction i))) (.onPart _ fun _ _ => rfl) (.onPart i.yields_run)
  refine .bind (M := fun _ w => P w.bus ∧ w.chip.remaining = i.cycles)
    (fun w h => ⟨h.1, rfl⟩) fun _ => ?_
  refine .bind (hrun.mono (fun _ h => h) (fun _ _ h => h)
    fun _ _ hw => ⟨hw.1, hw.2.1, hw.2.2.symm ▸ h.2⟩) fun n w ⟨hn, hP, hc⟩ => ⟨hP, ?_⟩
  change 1 ≤ w.chip.remaining + n ∧ w.chip.remaining + n ≤ 11
  omega

theorem leads_executeNext :
    Leads (fun w : Wired Cpu β => P w.bus ∧ w.chip.remaining ≤ 8) executeNext
      (fun _ w => P w.bus ∧ 1 ≤ w.chip.remaining ∧ w.chip.remaining ≤ 11)
      fun e w => e.isTrap = false ∧ P w.bus ∧ w.chip.remaining ≤ 8 := by
  refine .executeNext (leads_read (R := (· ≤ 8))) (fun _ _ _ hw => ⟨rfl, hw⟩) fun _ i hi => ?_
  exact .takeUp (leads_traceLine (R := (· ≤ 8)))
    (fun line w hw => ⟨CpuTrapFree.report (.executing line) w.bus hw.1, hw.2⟩)
    (leads_carryOut (Instruction.decode?_cycles hi))

theorem leads_interrupt (vector : UInt16) :
    Leads (fun w : Wired Cpu β => P w.bus ∧ w.chip.remaining ≤ 8) (interrupt vector)
      (fun _ w => P w.bus ∧ 1 ≤ w.chip.remaining ∧ w.chip.remaining ≤ 11)
      fun e w => e.isTrap = false ∧ P w.bus ∧ w.chip.remaining ≤ 8 := by
  have henter : Leads (fun w : Wired Cpu β => P w.bus ∧ w.chip.remaining ≤ 8)
      (access (onRegisters (enterInterrupt vector)))
      (fun _ w => True ∧ P w.bus ∧ w.chip.remaining ≤ 8)
      fun e w => e.isTrap = false ∧ P w.bus ∧ w.chip.remaining ≤ 8 :=
    leads_access (R := (· ≤ 8)) (.onPart (.built (N := 0)
      (.enterInterrupt (n := 0) (fun _ => trivial) vector))) (.onPart _ fun _ _ => rfl) .any
  have hseven : 1 ≤ interruptCycles ∧ interruptCycles ≤ 11 := by decide
  exact .bind henter fun _ w h => ⟨h.2.1, hseven⟩

/-- What an instruction boundary comes to takes a cycle at least and eleven at most. -/
theorem leads_serve :
    Leads (fun w : Wired Cpu β => P w.bus ∧ w.chip.remaining ≤ 8) serve
      (fun _ w => P w.bus ∧ 1 ≤ w.chip.remaining ∧ w.chip.remaining ≤ 11)
      fun e w => e.isTrap = false ∧ P w.bus ∧ w.chip.remaining ≤ 8 := by
  rw [serve_eq_enter]
  refine .bind (M := fun _ w => P w.bus ∧ w.chip.remaining ≤ 8) (fun _ h => h) fun entry => ?_
  cases entry with
  | nmi =>
    exact .bind (M := fun _ w => P w.bus ∧ w.chip.remaining ≤ 8) (fun _ h => h) fun _ =>
      leads_interrupt nmiVector
  | irq => exact leads_interrupt irqVector
  | instruction => exact leads_executeNext

end
end Cpu
end NesConsole
