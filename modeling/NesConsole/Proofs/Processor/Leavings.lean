import NesConsole.Proofs.Processor.Costs

/-! The registers that an instruction leaves, as a function of those before it and of the memory.
Nothing but what an operation computes is in this function; how it is fetched and what it accesses
is passed over. On a flat memory without holes every instruction ends so. -/
namespace NesConsole

def Operand.byte (mem : UInt16 → UInt8) (r : Registers) : Operand → UInt8
  | .memory address => mem address
  | _ => r.a

def Operand.stored (data : UInt8) (r : Registers) : Operand → Registers
  | .memory _ => r
  | _ => { r with a := data }

def BranchOp.leaves (operand : Operand) (r : Registers) (op : BranchOp) : Registers :=
  match operand with
  | .displacement offset => if op.holds r.p then { r with pc := branchTarget r.pc offset } else r
  | _ => r

def FlowOp.leaves (mem : UInt16 → UInt8) (operand : Operand) (r : Registers) : FlowOp → Registers
  | .pha | .php => { r with sp := r.sp - 1 }
  | .pla => Registers.loadA (mem (stackCell (r.sp + 1))) { r with sp := r.sp + 1 }
  | .plp => { r with sp := r.sp + 1, p := .pulled (mem (stackCell (r.sp + 1))) }
  | .jmp => { r with pc := operand.target r }
  | .jsr => { r with sp := r.sp - 2, pc := operand.target r }
  | .rts =>
    { r with
      sp := r.sp + 2
      pc := wordOf (mem (stackCell (r.sp + 1))) (mem (stackCell (r.sp + 2))) + 1 }
  | .brk =>
    { r with
      sp := r.sp - 3
      pc := wordAt mem irqVector
      p := { r.p with interruptDisable := true } }
  | .rti =>
    { r with
      sp := r.sp + 3
      pc := wordOf (mem (stackCell (r.sp + 2))) (mem (stackCell (r.sp + 3)))
      p := .pulled (mem (stackCell (r.sp + 1))) }

def Operation.leaves (mem : UInt16 → UInt8) (operand : Operand) (r : Registers) :
    Operation → Registers
  | .read op => op.apply (operand.byte mem r) r
  | .store op => operand.stored (op.source r) r
  | .modify op =>
    let (data, changed) := op.change (operand.byte mem r) r
    op.finish data (operand.stored data changed)
  | .register op => op.apply r
  | .branch op => op.leaves operand r
  | .flow op => op.leaves mem operand r

def Instruction.begun (i : Instruction) (r : Registers) : Registers :=
  r.started (r.pc + 1 + UInt16.ofNat i.mode.operandLength)

def Instruction.leaves (i : Instruction) (mem : UInt16 → UInt8) (r : Registers) : Registers :=
  i.operation.leaves mem (i.mode.resolved mem r).operand (i.begun r)

section
variable (mem : UInt16 → UInt8) (r : Registers)

theorem Operand.logs_load (operand : Operand) :
    ∃ l, Logs operand.load r mem (operand.byte mem r) r mem l := by
  cases operand with
  | memory address => exact ⟨_, .read address⟩
  | implied | accumulator | displacement => exact ⟨_, .look _⟩

theorem Operand.logs_store (operand : Operand) (data : UInt8) :
    ∃ mem' l, Logs (operand.store data) r mem () (operand.stored data r) mem' l := by
  cases operand with
  | memory address => exact ⟨_, _, .write address data⟩
  | implied | accumulator | displacement =>
    exact ⟨mem, [], .update fun r : Registers => { r with a := data }⟩

theorem BranchOp.logs_leaves (op : BranchOp) (operand : Operand) :
    ∃ extra l, Logs (op.run operand) r mem extra (op.leaves operand r) mem l := by
  have hlook : Logs (ε := BusError) (Wired.look id) r mem r r mem [] := .look id
  cases operand with
  | displacement offset =>
    by_cases htaken : op.holds r.p = true
    · have hleaves : op.leaves (.displacement offset) r =
          { r with pc := branchTarget r.pc offset } := if_pos htaken
      rw [hleaves]
      exact ⟨_, _, hlook.bind (.pos htaken (.bind (.update _) .pure))⟩
    · have hleaves : op.leaves (.displacement offset) r = r := if_neg htaken
      rw [hleaves]
      exact ⟨_, _, hlook.bind (.neg htaken .pure)⟩
  | implied | accumulator | memory => exact ⟨_, _, hlook.bind .pure⟩

theorem FlowOp.logs_leaves (op : FlowOp) (operand : Operand) :
    ∃ mem' l, Logs (op.run operand) r mem () (op.leaves mem operand r) mem' l := by
  have h₂ : r.sp + 1 + 1 = r.sp + 2 := by grind
  have h₃ : r.sp + 1 + 1 + 1 = r.sp + 3 := by grind
  cases op with
  | pha => exact ⟨_, _, .bind (.look _) (.push _)⟩
  | php => exact ⟨_, _, .bind (.look _) (.push _)⟩
  | pla => exact ⟨_, _, .bind .pull (.update _)⟩
  | plp => exact ⟨_, _, .bind .pull (.update _)⟩
  | jmp => exact ⟨_, _, .bind (.look _) (.update _)⟩
  | jsr =>
    have htarget : operand.target { r with sp := r.sp - 2 } = operand.target r := by
      cases operand <;> rfl
    unfold FlowOp.leaves
    rw [← htarget]
    exact ⟨_, _, .bind (.look _) (.bind (.pushWord _) (.bind (.look _) (.update _)))⟩
  | rts => exact ⟨_, _, .bind .pullWord (.update _)⟩
  | brk =>
    obtain ⟨mem', l, h, -⟩ := logs_brk mem r operand
    exact ⟨mem', l, h⟩
  | rti =>
    have hstacked : Stacked mem r.sp [mem (stackCell (r.sp + 1)), mem (stackCell (r.sp + 2)),
        mem (stackCell (r.sp + 3))] := ⟨rfl, by rw [h₂], by rw [h₃], trivial⟩
    obtain ⟨l, h⟩ := logs_rti mem r operand hstacked
    exact ⟨mem, l, h⟩

theorem Operation.logs_leaves (op : Operation) (operand : Operand) :
    ∃ extra mem' l, Logs (op.run operand) r mem extra (op.leaves mem operand r) mem' l := by
  cases op with
  | read op =>
    obtain ⟨l, hload⟩ := operand.logs_load mem r
    exact ⟨_, _, _, .bind hload (.bind (.update _) .pure)⟩
  | store op =>
    obtain ⟨mem', l, hstore⟩ := operand.logs_store mem r (op.source r)
    exact ⟨_, _, _, .bind (.look _) (.bind hstore .pure)⟩
  | modify op =>
    obtain ⟨l, hload⟩ := operand.logs_load mem r
    obtain ⟨mem', l', hstore⟩ := operand.logs_store mem
      (op.change (operand.byte mem r) r).2 (op.change (operand.byte mem r) r).1
    exact ⟨_, _, _, .bind hload (.bind (.look _) (.bind (.update _) (.bind hstore
      (.bind (.update _) .pure))))⟩
  | register op => exact ⟨_, _, _, .bind (.update _) .pure⟩
  | branch op =>
    obtain ⟨extra, l, h⟩ := op.logs_leaves mem r operand
    exact ⟨extra, mem, l, h⟩
  | flow op =>
    obtain ⟨mem', l, h⟩ := op.logs_leaves mem r operand
    exact ⟨_, mem', _, .bind h .pure⟩

/-- An instruction at the program counter changes the registers so, and of the rest of the processor
its cycles to wait alone. -/
theorem Cpu.logs_leaves {mem : UInt16 → UInt8} {c : Cpu} {i : Instruction}
    (hi : Instruction.decode? (mem c.registers.pc) = some i) :
    ∃ n mem' l, Logs executeNext c mem ()
      { c with registers := i.leaves mem c.registers, remaining := n } mem' l := by
  obtain ⟨extra, mem', l, h⟩ := i.operation.logs_leaves mem
    (i.begun c.registers) (i.mode.resolved mem c.registers).operand
  exact ⟨_, mem', _, logs_executeNext hi (Instruction.logs_run h)⟩

end
end NesConsole
