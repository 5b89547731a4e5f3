import NesConsole.Proofs.Processor.StackFrames

/-! What every turn of the processor costs: the documented cycles of an instruction by the way that
leads to its operand and by what is done there, a cycle for a page that indexing left, the cycles of
a taken branch, and those of an interrupt entry. -/
namespace NesConsole

namespace AddressingMode

/-- Cycles until the operand has been read. -/
def reach : AddressingMode → Nat
  | .implied | .accumulator | .immediate | .relative => 2
  | .zeroPage => 3
  | .zeroPageX | .zeroPageY | .absolute | .absoluteX | .absoluteY => 4
  | .indirect | .indirectIndexed => 5
  | .indexedIndirect => 6

/-- The address that a mode indexes beyond the zero page. -/
def base? (mem : UInt16 → UInt8) (r : Registers) : AddressingMode → Option UInt16
  | .absoluteX | .absoluteY => some (wordAt mem (r.pc + 1))
  | .indirectIndexed =>
    let pointer := mem (r.pc + 1)
    some (wordOf (mem pointer.toUInt16) (mem (pointer + 1).toUInt16))
  | _ => none

/-- A write to an indexed address waits for its page. -/
def fixUp : AddressingMode → Nat
  | .absoluteX | .absoluteY | .indirectIndexed => 1
  | _ => 0

def leavesPage (mem : UInt16 → UInt8) (r : Registers) (mode : AddressingMode) : Bool :=
  (mode.base? mem r).any fun base => !samePage base (mode.effective mem r)

theorem crossed_resolved (mem : UInt16 → UInt8) (r : Registers) (mode : AddressingMode) :
    (mode.resolved mem r).crossed = mode.leavesPage mem r := by
  cases mode <;> rfl

end AddressingMode

def FlowOp.documentedCycles (mode : AddressingMode) : FlowOp → Nat
  | .pha | .php => 3
  | .pla | .plp => 4
  | .jmp => if mode = .indirect then 5 else 3
  | .jsr | .rts | .rti => 6
  | .brk => 7

def BranchOp.penalty (mem : UInt16 → UInt8) (r : Registers) (op : BranchOp) : Nat :=
  if op.holds r.p then
    if samePage (r.pc + 2) (branchTarget (r.pc + 2) (mem (r.pc + 1))) then 1 else 2
  else 0

namespace Instruction

def documentedCycles (i : Instruction) : Nat :=
  match i.operation with
  | .read _ | .register _ | .branch _ => i.mode.reach
  | .store _ => i.mode.reach + i.mode.fixUp
  | .modify _ => if i.mode = .accumulator then 2 else i.mode.reach + i.mode.fixUp + 2
  | .flow op => op.documentedCycles i.mode

theorem decode?_documentedCycles {opcode : UInt8} {i : Instruction} (h : decode? opcode = some i) :
    i.cycles = i.documentedCycles :=
  of_decide_eq_true
    (of_decode? (p := fun i => decide (i.cycles = i.documentedCycles)) (by decide) h)

def pageCycles (mem : UInt16 → UInt8) (r : Registers) (i : Instruction) : Nat :=
  if i.operation.pagePenalty && i.mode.leavesPage mem r then 1 else 0

def branchCycles (mem : UInt16 → UInt8) (r : Registers) (i : Instruction) : Nat :=
  match i.operation with
  | .branch op => op.penalty mem r
  | _ => 0

def cost (mem : UInt16 → UInt8) (r : Registers) (i : Instruction) : Nat :=
  i.documentedCycles + i.pageCycles mem r + i.branchCycles mem r

end Instruction

section
variable {mem mem' : UInt16 → UInt8} {r : Registers}

namespace FlatMemory

def holding (mem : UInt16 → UInt8) : FlatMemory 0x10000 where
  cells := Vector.ofFn fun place => mem (UInt16.ofNat place)

theorem content_holding (mem : UInt16 → UInt8) : (holding mem).content = mem := by
  funext address
  have hlt := address.toNat_lt
  simp [content, holding, get, Nat.mod_eq_of_lt hlt, hlt]

end FlatMemory

/-- What holds of every answer of a program holds of the one it gives on a flat memory. -/
theorem Logs.of_yields {ε κ α : Type} {x : EStateM ε (Wired κ (FlatMemory 0x10000)) α} {c c' : κ}
    {a : α} {l : List Access} {Q : α → Prop} (h : Logs x c mem a c' mem' l) (hx : Yields Q x) :
    Q a := by
  have hholding := FlatMemory.content_holding mem
  rw [← hholding] at h
  obtain ⟨b, hok, -⟩ := h.ok rfl
  have hr := hx ⟨c, .holding mem⟩ trivial
  rwa [hok] at hr

namespace Logs
variable {ε κ α : Type} {x y : EStateM ε (Wired κ (FlatMemory 0x10000)) α} {c c' : κ} {a : α}
  {l : List Access} {p : Prop} [Decidable p]

theorem pos (h : p) (hx : Logs x c mem a c' mem' l) :
    Logs (if p then x else y) c mem a c' mem' l := by
  rwa [if_pos h]

theorem neg (h : ¬p) (hy : Logs y c mem a c' mem' l) :
    Logs (if p then x else y) c mem a c' mem' l := by
  rwa [if_neg h]

end Logs

theorem BranchOp.logs_run (op : BranchOp) : ∃ r', Logs
    (op.run (.displacement (mem (r.pc + 1)))) (r.started (r.pc + 2)) mem (op.penalty mem r) r' mem
    [] := by
  have hholds : op.holds (r.started (r.pc + 2)).p = op.holds r.p := by cases op <;> rfl
  unfold penalty
  cases htaken : op.holds r.p with
  | false =>
    have hstays : ¬op.holds (r.started (r.pc + 2)).p = true := by
      rw [hholds, htaken]
      decide
    exact ⟨_, .bind (l := []) (.look id) (.neg hstays .pure)⟩
  | true =>
    have htakes : op.holds (r.started (r.pc + 2)).p = true := hholds.trans htaken
    exact ⟨_, .bind (l := []) (.look id) (.pos htakes (.bind (l := []) (.update _) .pure))⟩

namespace Instruction

theorem decode?_relative {opcode : UInt8} {op : BranchOp} {mode : AddressingMode} {cycles : Nat}
    (h : decode? opcode = some ⟨.branch op, mode, cycles⟩) : mode = .relative :=
  of_decide_eq_true (of_decode? (p := fun i => match i.operation with
    | .branch _ => decide (i.mode = .relative)
    | _ => true) (by decide) h)

/-- An instruction answers what it costs beyond its documented cycles. -/
theorem logs_cost {opcode : UInt8} {i : Instruction} (hi : decode? opcode = some i) :
    ∃ r' mem' l, Logs i.run r mem (i.pageCycles mem r + i.branchCycles mem r) r' mem' l := by
  by_cases hbranch : ∃ op, i.operation = .branch op
  case pos =>
    obtain ⟨operation, mode, cycles⟩ := i
    obtain ⟨op, rfl⟩ := hbranch
    obtain rfl := decode?_relative hi
    have hpc : r.pc + 1 + UInt16.ofNat 1 = r.pc + 2 := UInt16.add_assoc _ _ _
    obtain ⟨r', hop⟩ : ∃ r', Logs (op.run (.displacement (mem (r.pc + 1)))) (r.started (r.pc + 2))
      mem (op.penalty mem r) r' mem [] := op.logs_run
    rw [← hpc] at hop
    have hrun := logs_run (i := ⟨.branch op, .relative, cycles⟩) hop
    have hcost : (⟨.branch op, .relative, cycles⟩ : Instruction).pageCycles mem r +
        op.penalty mem r = op.penalty mem r := Nat.zero_add _
    exact ⟨_, _, _, hcost ▸ hrun⟩
  case neg =>
    obtain ⟨extra, r', mem', hop⟩ : Makes _ _ mem (i.operandAccesses mem r) :=
      operation_makes (decode?_formed hi)
    have hzero : extra = 0 := hop.of_yields (Operation.yields_zero (fun op h => hbranch ⟨op, h⟩) _)
    subst hzero
    have hrun := logs_run hop
    have hcost : i.branchCycles mem r = 0 := by
      unfold branchCycles
      split
      · exact absurd ⟨_, ‹_›⟩ hbranch
      · rfl
    rw [hcost, pageCycles, ← i.mode.crossed_resolved, Bool.and_comm]
    exact ⟨_, _, _, hrun⟩

end Instruction

theorem BranchOp.penalty_le (op : BranchOp) : op.penalty mem r ≤ 2 := by
  unfold penalty
  split
  · split <;> decide
  · decide

namespace Instruction

theorem cost_bounds {opcode : UInt8} {i : Instruction} (hi : decode? opcode = some i) :
    1 ≤ i.cost mem r ∧ i.cost mem r ≤ 11 := by
  have hbase := decode?_cycles hi
  have hpage : i.pageCycles mem r ≤ 1 := by
    unfold pageCycles
    split <;> decide
  have hbranch : i.branchCycles mem r ≤ 2 := by
    unfold branchCycles
    split
    · exact BranchOp.penalty_le _
    · decide
  rw [decode?_documentedCycles hi] at hbase
  unfold cost
  omega

end Instruction

namespace Cpu

def Illegal (e : CpuError) : Prop :=
  ∃ opcode pc, e = .illegalOpcode opcode pc ∧ Instruction.decode? opcode = none

def charge (w : Wired Cpu (FlatMemory 0x10000)) : Nat :=
  match w.chip.boundary with
  | .nmi | .irq => interruptCycles
  | .instruction =>
    match Instruction.decode? (w.bus.content w.chip.registers.pc) with
    | some i => i.cost w.bus.content w.chip.registers
    | none => 0

theorem charge_le (w : Wired Cpu (FlatMemory 0x10000)) : charge w ≤ 11 := by
  have hseven : interruptCycles ≤ 11 := by decide
  unfold charge
  cases w.chip.boundary with
  | nmi | irq => exact hseven
  | instruction =>
    cases hi : Instruction.decode? (w.bus.content w.chip.registers.pc) with
    | some i => exact (Instruction.cost_bounds hi).2
    | none => exact Nat.zero_le 11

/-- On a memory without holes what is due is done for its price, unless it is an opcode that no
instruction has. -/
theorem enter_charges {w : Wired Cpu (FlatMemory 0x10000)} (hholes : w.bus.holes = []) :
    match enter w.chip.boundary w with
    | .ok _ v => v.chip.remaining = charge w ∧ v.bus.holes = []
    | .error e _ => Illegal e := by
  obtain ⟨c, b⟩ := w
  dsimp only at hholes ⊢
  unfold charge
  cases hboundary : c.boundary with
  | nmi =>
    obtain ⟨mem', l, hentry, -⟩ :=
      logs_interrupt b.content { c with nmiPending := false } isVector_nmi
    have h : Logs (enter .nmi) c b.content () _ mem' ([] ++ l) := .bind (.update _) hentry
    obtain ⟨b', hok, -, hb'⟩ := h.ok hholes
    rw [hok]
    exact ⟨rfl, hb'⟩
  | irq =>
    obtain ⟨mem', l, hentry, -⟩ := logs_interrupt b.content c isVector_irq
    have h : Logs (enter .irq) c b.content () _ mem' l := hentry
    obtain ⟨b', hok, -, hb'⟩ := h.ok hholes
    rw [hok]
    exact ⟨rfl, hb'⟩
  | instruction =>
    cases hi : Instruction.decode? (b.content c.registers.pc) with
    | none =>
      have hread : Logs (Wired.read c.registers.pc) c b.content (b.content c.registers.pc) c
        b.content _ := .read c.registers.pc
      obtain ⟨b', hok, -, -⟩ := hread.ok hholes
      have hnext : enter .instruction (⟨c, b⟩ : Wired Cpu (FlatMemory 0x10000)) =
          .error (.illegalOpcode (b.content c.registers.pc) c.registers.pc) ⟨c, b'⟩ := by
        refine (bind_ok rfl).trans ((bind_ok (access_ok hok)).trans ?_)
        rw [hi]
        rfl
      rw [hnext]
      exact ⟨_, _, rfl, hi⟩
    | some i =>
      obtain ⟨r', mem', l, hrun⟩ := Instruction.logs_cost hi
      have h : Logs (enter .instruction) c b.content () _ mem' _ := logs_executeNext hi hrun
      obtain ⟨b', hok, -, hb'⟩ := h.ok hholes
      rw [hok]
      refine ⟨?_, hb'⟩
      change i.cycles + _ = i.cost _ _
      rw [Instruction.decode?_documentedCycles hi, Instruction.cost, Nat.add_assoc]

end Cpu

end
end NesConsole
