import NesConsole.Proofs.Processor.Leavings

/-! The length of an instruction. A trace shows the bytes of its opcode and operand, and it is the
address right after them that the processor goes on at, branches from and pushes to come back, also
where that address wraps around. -/
namespace NesConsole

def bytesFrom (mem : UInt16 → UInt8) (address : UInt16) (n : Nat) : List UInt8 :=
  (List.range n).map fun k => mem (address + UInt16.ofNat k)

/-- The line is about the instruction that `c` runs next. It has exactly `bytes`, and its ten
characters after the address show them, each as two digits and a blank. -/
structure TraceLine.Shows (line : TraceLine) (c : Cpu) (bytes : List UInt8) : Prop where
  address : line.address = c.registers.pc
  complete : line.bytes = bytes
  registers : line.registers = c.registers
  cycles : line.cycles = c.cycles
  columns : (line.render.toList.drop 6).take 10 =
    (bytes.flatMap fun byte => Hex.digits 2 byte.toNat ++ [' ']).rightpad 10 ' '

namespace Instruction

def length (i : Instruction) : Nat := 1 + i.mode.operandLength

def next (i : Instruction) (pc : UInt16) : UInt16 := pc + UInt16.ofNat i.length

/-- Where the processor is after the instruction at the program counter of `r`, and what it has
pushed to come back: `r'` are the registers and `mem'` is the memory afterwards. -/
def GoesOn (i : Instruction) (mem mem' : UInt16 → UInt8) (r r' : Registers) : Prop :=
  match i.operation with
  | .branch op =>
    if op.holds r.p then
      (r'.pc.toNat : Int) = ((i.next r.pc).toNat + (mem (r.pc + 1)).toInt8.toInt) % 65536
    else r'.pc = i.next r.pc
  | .flow .jmp =>
    let operand := wordAt mem (r.pc + 1)
    i.mode = .absolute ∧ r'.pc = operand ∨
      i.mode = .indirect ∧ r'.pc = wordOf (mem operand) (mem (nextOnPage operand))
  | .flow .jsr =>
    let back := i.next r.pc - 1
    r'.pc = wordAt mem (r.pc + 1) ∧ r'.sp = r.sp - 2 ∧
      Frame mem mem' r'.sp [lowByte back, highByte back]
  | .flow .brk =>
    let back := i.next r.pc + 1
    r'.pc = wordAt mem 0xFFFE ∧ r'.sp = r.sp - 3 ∧
      Frame mem mem' r'.sp [r.p.pushedBySoftware, lowByte back, highByte back]
  | .flow .rts => r'.pc = wordOf (mem (stackCell (r.sp + 1))) (mem (stackCell (r.sp + 2))) + 1
  | .flow .rti => r'.pc = wordOf (mem (stackCell (r.sp + 2))) (mem (stackCell (r.sp + 3)))
  | _ => r'.pc = i.next r.pc

end Instruction

/-! ### Lines -/

namespace TraceLine

theorem render_columns (t : TraceLine) : ∃ rest, t.render.toList =
    Hex.digits 4 t.address.toNat ++ ([' ', ' '] ++
      ((padRight 8 (" ".intercalate (t.bytes.map Hex.byte))).toList ++ ([' ', ' '] ++ rest))) := by
  simp only [render, String.toList_append, Hex.word, toString, String.toList_ofList,
    List.append_assoc]
  exact ⟨_, rfl⟩

/-- Up to three bytes fit between the address and the mnemonic. -/
theorem padRight_bytes {bytes : List UInt8} (h : bytes.length ≤ 3) :
    (padRight 8 (" ".intercalate (bytes.map Hex.byte))).toList ++ [' ', ' '] =
      (bytes.flatMap fun byte => Hex.digits 2 byte.toNat ++ [' ']).rightpad 10 ' ' := by
  have hblank : " ".length = 1 := rfl
  match bytes with
  | [] => rfl
  | [_] => simp [padRight, List.rightpad, Hex.byte, Hex.digits]
  | [_, _] => simp [padRight, List.rightpad, Hex.byte, Hex.digits, hblank]
  | [_, _, _] => simp [padRight, List.rightpad, Hex.byte, Hex.digits, hblank]
  | _ :: _ :: _ :: _ :: _ =>
    simp only [List.length_cons] at h
    omega

theorem columns (t : TraceLine) (h : t.bytes.length ≤ 3) :
    (t.render.toList.drop 6).take 10 =
      (t.bytes.flatMap fun byte => Hex.digits 2 byte.toNat ++ [' ']).rightpad 10 ' ' := by
  obtain ⟨rest, hrender⟩ := t.render_columns
  have haddress : (Hex.digits 4 t.address.toNat ++ [' ', ' ']).length = 6 := by
    rw [List.length_append, Hex.length_digits]
    rfl
  have hwidth : ((t.bytes.flatMap fun byte => Hex.digits 2 byte.toNat ++ [' ']).rightpad 10
      ' ').length = 10 := by
    have hbytes : (t.bytes.flatMap fun byte => Hex.digits 2 byte.toNat ++ [' ']).length =
        t.bytes.length * 3 := by
      simp [List.length_flatMap, Hex.length_digits, List.map_const']
    rw [List.length_rightpad, hbytes]
    omega
  rw [hrender, ← List.append_assoc, List.drop_left' haddress, ← List.append_assoc,
    padRight_bytes h, List.take_left' hwidth]

end TraceLine

section
variable {mem : UInt16 → UInt8} {r : Registers}

theorem bytesFrom_succ (address : UInt16) (n : Nat) :
    bytesFrom mem address (n + 1) = mem address :: bytesFrom mem (address + 1) n := by
  have hone (k : Nat) : address + UInt16.ofNat (k + 1) = address + 1 + UInt16.ofNat k := by
    rw [Nat.add_comm, UInt16.ofNat_add, UInt16.add_assoc]
    rfl
  rw [bytesFrom, List.range_succ_eq_map, List.map_cons, List.map_map, Function.comp_def]
  simp only [Nat.succ_eq_add_one, hone]
  rw [show UInt16.ofNat 0 = 0 from rfl, UInt16.add_zero]
  rfl

theorem Cpu.logs_readBytes (c : Cpu) (address : UInt16) (n : Nat) :
    ∃ l, Logs (readBytes address n) c mem (bytesFrom mem address n) c mem l := by
  induction n generalizing address with
  | zero => exact ⟨_, .pure⟩
  | succ n ih =>
    obtain ⟨l, hrest⟩ := ih (address + 1)
    rw [bytesFrom_succ]
    exact ⟨_, .bind (.read address) (.bind hrest .pure)⟩

theorem Cpu.logs_traceLine {c : Cpu} {i : Instruction}
    (hi : Instruction.decode? (mem c.registers.pc) = some i) :
    ∃ l, Logs traceLine c mem
      ⟨c.registers.pc, bytesFrom mem c.registers.pc i.length, c.registers, c.cycles⟩ c mem l := by
  obtain ⟨l, hoperands⟩ : ∃ l, Logs (readBytes (c.registers.pc + 1) i.mode.operandLength) c mem
      (bytesFrom mem (c.registers.pc + 1) i.mode.operandLength) c mem l := Cpu.logs_readBytes ..
  rw [Instruction.length, Nat.add_comm, bytesFrom_succ]
  refine ⟨[] ++ ([_] ++ (l ++ [])), .bind (.look id) (.bind (.read c.registers.pc) ?_)⟩
  dsimp only [id]
  rw [hi]
  exact .bind hoperands .pure

theorem Instruction.shows {i : Instruction} {c : Cpu} : TraceLine.Shows
    ⟨c.registers.pc, bytesFrom mem c.registers.pc i.length, c.registers, c.cycles⟩ c
    (bytesFrom mem c.registers.pc i.length) := by
  refine ⟨rfl, rfl, rfl, rfl, TraceLine.columns _ ?_⟩
  have hlength : i.mode.operandLength ≤ 2 := i.mode.operandLength_le
  rw [bytesFrom, List.length_map, List.length_range, Instruction.length]
  omega

/-! ### Addresses -/

/-- Bytes from 128 up are negative. -/
theorem toInt_toInt8 (offset : UInt8) : offset.toInt8.toInt =
    if hasBit offset 7 then (offset.toNat : Int) - 256 else offset.toNat := by
  have hlt := offset.toNat_lt
  have hsign : hasBit offset 7 = decide (128 ≤ offset.toNat) := by
    rw [hasBit, Nat.testBit_eq_decide_div_mod_eq]
    exact decide_eq_decide.2 (by omega)
  have hvalue : offset.toInt8.toInt =
      if 2 * offset.toNat < 256 then (offset.toNat : Int) else offset.toNat - 256 :=
    BitVec.toInt_eq_toNat_cond offset.toBitVec
  rw [hvalue, hsign]
  by_cases h : 128 ≤ offset.toNat
  · rw [if_neg (by omega), if_pos (decide_eq_true h)]
  · rw [if_pos (by omega), if_neg (by simpa using h)]

theorem toNat_branchTarget (pc : UInt16) (offset : UInt8) :
    ((branchTarget pc offset).toNat : Int) = (pc.toNat + offset.toInt8.toInt) % 65536 := by
  have hpc := pc.toNat_lt
  have hoffset := offset.toNat_lt
  rw [toInt_toInt8, branchTarget]
  split
  · rw [UInt16.toNat_sub, UInt16.toNat_add, UInt8.toNat_toUInt16]
    change (((65536 - 256 + (pc.toNat + offset.toNat) % 65536) % 65536 : Nat) : Int) = _
    omega
  · rw [UInt16.toNat_add, UInt8.toNat_toUInt16]
    omega

theorem Operand.stored_pc (operand : Operand) (data : UInt8) :
    (operand.stored data r).pc = r.pc := by
  cases operand <;> rfl

/-! ### Instructions -/

namespace Instruction
variable {i : Instruction} {mem' : UInt16 → UInt8}

/-- An operation starts with the program counter past its operand. -/
theorem begun_pc (i : Instruction) (r : Registers) : (i.begun r).pc = i.next r.pc := by
  change r.pc + 1 + UInt16.ofNat i.mode.operandLength = r.pc + UInt16.ofNat (1 + _)
  rw [UInt16.ofNat_add, UInt16.add_assoc]
  rfl

theorem decode?_jmp {opcode : UInt8} {mode : AddressingMode} {cycles : Nat}
    (hi : decode? opcode = some ⟨.flow .jmp, mode, cycles⟩) : mode = .absolute ∨ mode = .indirect :=
  of_decide_eq_true (of_decode? (p := fun i => decide (i.operation = .flow .jmp →
    i.mode = .absolute ∨ i.mode = .indirect)) (by decide) hi) rfl

/-- A call and a break leave the memory that their frames say, all others what they leave. -/
theorem goesOn_leaves {opcode : UInt8} (hi : decode? opcode = some i)
    (hjsr : i.operation ≠ .flow .jsr) (hbrk : i.operation ≠ .flow .brk) :
    i.GoesOn mem mem' r (i.leaves mem r) := by
  have hnext := i.begun_pc r
  obtain ⟨operation, mode, cycles⟩ := i
  cases operation with
  | read op => cases op <;> exact hnext
  | store op => exact (Operand.stored_pc _ _).trans hnext
  | modify op => cases op <;> exact (Operand.stored_pc _ _).trans hnext
  | register op => cases op <;> exact hnext
  | branch op =>
    obtain rfl := decode?_relative hi
    have hholds : op.holds (begun ⟨.branch op, .relative, cycles⟩ r).p = op.holds r.p := by
      cases op <;> rfl
    cases htaken : op.holds r.p with
    | true =>
      simp only [GoesOn, leaves, Operation.leaves, BranchOp.leaves, AddressingMode.resolved, hholds,
        htaken, if_true]
      rw [toNat_branchTarget, hnext]
    | false =>
      simp only [GoesOn, leaves, Operation.leaves, BranchOp.leaves, AddressingMode.resolved, hholds,
        htaken, Bool.false_eq_true, if_false]
      exact hnext
  | flow op =>
    cases op with
    | pha | php | pla | plp => exact hnext
    | rts | rti => rfl
    | jsr => exact absurd rfl hjsr
    | brk => exact absurd rfl hbrk
    | jmp =>
      rcases decode?_jmp hi with rfl | rfl
      · exact .inl ⟨rfl, rfl⟩
      · exact .inr ⟨rfl, rfl⟩

end Instruction

namespace Cpu
variable {c : Cpu} {i : Instruction}

theorem logs_goesOn (hi : Instruction.decode? (mem c.registers.pc) = some i) :
    ∃ r' n mem' l, Logs executeNext c mem () { c with registers := r', remaining := n } mem' l ∧
      i.GoesOn mem mem' c.registers r' := by
  have hnext := i.begun_pc c.registers
  by_cases hjsr : i.operation = .flow .jsr
  · obtain ⟨operation, mode, cycles⟩ := i
    obtain rfl : operation = .flow .jsr := hjsr
    have hformed := Instruction.decode?_formed hi
    obtain rfl : mode = .absolute := by simpa [Instruction.formed] using hformed
    obtain ⟨mem', l, hcall, hframe⟩ := FlowOp.logs_jsr mem
      (Instruction.begun ⟨.flow .jsr, .absolute, cycles⟩ c.registers)
      (wordAt mem (c.registers.pc + 1))
    obtain ⟨l, hlogs⟩ := logs_flow hi hcall
    rw [hnext] at hframe
    exact ⟨_, _, mem', l, hlogs, rfl, rfl, hframe⟩
  by_cases hbrk : i.operation = .flow .brk
  · obtain ⟨operation, mode, cycles⟩ := i
    obtain rfl : operation = .flow .brk := hbrk
    obtain ⟨mem', l, hbreak, hframe⟩ := FlowOp.logs_brk mem
      (Instruction.begun ⟨.flow .brk, mode, cycles⟩ c.registers)
      (mode.resolved mem c.registers).operand
    obtain ⟨l, hlogs⟩ := logs_flow hi hbreak
    rw [hnext] at hframe
    exact ⟨_, _, mem', l, hlogs, rfl, rfl, hframe⟩
  · obtain ⟨n, mem', l, hlogs⟩ := logs_leaves hi
    exact ⟨_, n, mem', l, hlogs, Instruction.goesOn_leaves hi hjsr hbrk⟩

/-- Over a memory that answers everywhere, for every legal opcode at the program counter: a trace
shows the bytes of the instruction, all of them and no more, and changes nothing of the processor or
the memory; and running the instruction, as the cycle at its boundary does, goes on at the address
past these bytes, or where it branches, jumps or calls to from there. -/
theorem lengths_agree {w : Wired Cpu (FlatMemory 0x10000)} (hholes : w.bus.holes = [])
    (hi : Instruction.decode? (w.bus.content w.chip.registers.pc) = some i) :
    (∃ line b, traceLine w = .ok line ⟨w.chip, b⟩ ∧ b.content = w.bus.content ∧
      line.Shows w.chip (bytesFrom w.bus.content w.chip.registers.pc i.length)) ∧
    ∃ v, executeNext w = .ok () v ∧
      i.GoesOn w.bus.content v.bus.content w.chip.registers v.chip.registers ∧
      (w.chip.fault = none → w.chip.remaining = 0 → w.chip.boundary = .instruction →
        w.chip.cycles + 1 < cycleLimit → clock w = .ok () (waited 1 v)) := by
  obtain ⟨l, htrace⟩ := logs_traceLine hi
  obtain ⟨b, hline, hcontent, -⟩ := htrace.ok hholes
  obtain ⟨r', n, mem', l', hlogs, hgoes⟩ := logs_goesOn hi
  obtain ⟨b', hnext, rfl, -⟩ := hlogs.ok hholes
  refine ⟨⟨_, b, hline, hcontent, Instruction.shows⟩, _, hnext, hgoes,
    fun hfault hidle hdue hroom => ?_⟩
  have hclock := clock_idle hfault hidle
  rw [hdue, enter] at hclock
  rw [hclock, hnext]
  exact if_pos hroom

/-- A branch back by three whose opcode is the last byte of the address space. -/
def atEnd : Wired Cpu (FlatMemory 0x10000) :=
  ⟨{ registers := { pc := 0xFFFF } },
    (FlatMemory.blank.set (0xFFFF : UInt16).toNat 0xD0).set (0x0000 : UInt16).toNat 0xFD⟩

theorem lengths_agree_backwards : atEnd.bus.holes = [] ∧
    (∃ line b, traceLine atEnd = .ok line ⟨atEnd.chip, b⟩ ∧ line.bytes = [0xD0, 0xFD]) ∧
    ∃ v, clock atEnd = .ok () (waited 1 v) ∧ v.chip.registers.pc = 0xFFFE := by
  have hcontent : atEnd.bus.content =
      Function.update (Function.update (fun _ => 0) 0xFFFF 0xD0) 0x0000 0xFD := by
    rw [atEnd, FlatMemory.content_set, FlatMemory.content_set, FlatMemory.content_blank]
  have hi : Instruction.decode? (atEnd.bus.content atEnd.chip.registers.pc) =
      some ⟨.branch .bne, .relative, 2⟩ := by
    rw [hcontent]
    decide
  obtain ⟨⟨line, b, hline, -, hshows⟩, v, -, hgoes, hclock⟩ := lengths_agree rfl hi
  rw [hcontent] at hshows hgoes
  have hpc : (v.chip.registers.pc.toNat : Int) = 0xFFFE := hgoes
  refine ⟨rfl, ⟨line, b, hline, hshows.complete⟩, v, hclock rfl rfl rfl (by decide), ?_⟩
  exact UInt16.toNat_inj.1 (Int.ofNat_inj.1 hpc)

end Cpu
end
end NesConsole
