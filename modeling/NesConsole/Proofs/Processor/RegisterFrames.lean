import NesConsole.Proofs.Processor.Leavings

/-! What an instruction may change. Each operation has its registers, its move of the stack pointer
and its flags, and nothing else is different once it is done. The byte that it computes or moves is
what it puts into its register and what its negative and zero flags show. -/
namespace NesConsole

/-- The flags of the status register that are wired. Bit 5 is not. -/
inductive Flag where
  | carry | zero | interruptDisable | decimal | brk | overflow | negative
  deriving DecidableEq, Repr

def Status.flag (p : Status) : Flag → Bool
  | .carry => p.carry
  | .zero => p.zero
  | .interruptDisable => p.interruptDisable
  | .decimal => p.decimal
  | .brk => p.brk
  | .overflow => p.overflow
  | .negative => p.negative

namespace Operation

/-! ### Documentation -/

def setsA (accumulator : Bool) : Operation → Bool
  | .read .lda | .read .lax | .read .adc | .read .sbc | .read .and | .read .ora | .read .eor
  | .read .anc | .read .alr | .read .arr
  | .modify .slo | .modify .rla | .modify .sre | .modify .rra | .modify .isc
  | .register .txa | .register .tya | .flow .pla => true
  | .modify .asl | .modify .lsr | .modify .rol | .modify .ror => accumulator
  | _ => false

def setsX : Operation → Bool
  | .read .ldx | .read .lax | .read .axs
  | .register .tax | .register .tsx | .register .inx | .register .dex => true
  | _ => false

def setsY : Operation → Bool
  | .read .ldy | .register .tay | .register .iny | .register .dey => true
  | _ => false

def stackPointer (r : Registers) : Operation → UInt8
  | .register .txs => r.x
  | .flow .pha | .flow .php => r.sp - 1
  | .flow .pla | .flow .plp => r.sp + 1
  | .flow .jsr => r.sp - 2
  | .flow .rts => r.sp + 2
  | .flow .brk => r.sp - 3
  | .flow .rti => r.sp + 3
  | _ => r.sp

def flags : Operation → List Flag
  | .read .lda | .read .ldx | .read .ldy | .read .lax | .read .and | .read .ora | .read .eor
  | .modify .inc | .modify .dec
  | .register .tax | .register .tay | .register .tsx | .register .txa | .register .tya
  | .register .inx | .register .iny | .register .dex | .register .dey
  | .flow .pla => [.negative, .zero]
  | .read .cmp | .read .cpx | .read .cpy | .read .anc | .read .alr | .read .axs
  | .modify .asl | .modify .lsr | .modify .rol | .modify .ror
  | .modify .slo | .modify .rla | .modify .sre | .modify .dcp => [.negative, .zero, .carry]
  | .read .adc | .read .sbc | .read .arr | .modify .rra | .modify .isc =>
    [.negative, .overflow, .zero, .carry]
  | .read .bit => [.negative, .overflow, .zero]
  | .register .clc | .register .sec => [.carry]
  | .register .cld | .register .sed => [.decimal]
  | .register .cli | .register .sei | .flow .brk => [.interruptDisable]
  | .register .clv => [.overflow]
  | .flow .plp | .flow .rti =>
    [.carry, .zero, .interruptDisable, .decimal, .brk, .overflow, .negative]
  | .store _ | .branch _ | .register .txs | .register .nop
  | .flow .pha | .flow .php | .flow .jmp | .flow .jsr | .flow .rts => []

def pullsFlags : Operation → Bool
  | .flow .plp | .flow .rti => true
  | _ => false

/-- The byte that is computed or moved, for operand `v`. Others are given their operand. -/
def result (v : UInt8) (r : Registers) : Operation → UInt8
  | .read .adc => r.a + v + bitValue r.p.carry 0
  | .read .sbc => r.a - v - bitValue (!r.p.carry) 0
  | .read .and | .read .bit | .read .anc => r.a &&& v
  | .read .ora => r.a ||| v
  | .read .eor => r.a ^^^ v
  | .read .cmp => r.a - v
  | .read .cpx => r.x - v
  | .read .cpy => r.y - v
  | .read .alr => Registers.shiftRight (r.a &&& v) false
  | .read .arr => Registers.shiftRight (r.a &&& v) r.p.carry
  | .read .axs => (r.a &&& r.x) - v
  | .modify .asl => Registers.shiftLeft v false
  | .modify .lsr => Registers.shiftRight v false
  | .modify .rol => Registers.shiftLeft v r.p.carry
  | .modify .ror => Registers.shiftRight v r.p.carry
  | .modify .inc => v + 1
  | .modify .dec => v - 1
  | .modify .slo => r.a ||| Registers.shiftLeft v false
  | .modify .rla => r.a &&& Registers.shiftLeft v r.p.carry
  | .modify .sre => r.a ^^^ Registers.shiftRight v false
  | .modify .rra => r.a + Registers.shiftRight v r.p.carry + bitValue (hasBit v 0) 0
  | .modify .dcp => r.a - (v - 1)
  | .modify .isc => r.a - (v + 1) - bitValue (!r.p.carry) 0
  | .register .tax | .register .tay => r.a
  | .register .tsx => r.sp
  | .register .txa => r.x
  | .register .tya => r.y
  | .register .inx => r.x + 1
  | .register .iny => r.y + 1
  | .register .dex => r.x - 1
  | .register .dey => r.y - 1
  | _ => v

/-- The byte whose bit 7 the negative flag shows. A bit test shows its operand, and tests the bits
that it shares with A. -/
def signed (v : UInt8) (r : Registers) (op : Operation) : UInt8 :=
  if op = .read .bit then v else op.result v r

end Operation

structure Documented (op : Operation) (accumulator : Bool) (v : UInt8) (r r' : Registers) :
    Prop where
  a : r'.a = if op.setsA accumulator then op.result v r else r.a
  x : r'.x = if op.setsX then op.result v r else r.x
  y : r'.y = if op.setsY then op.result v r else r.y
  sp : r'.sp = op.stackPointer r
  flags (f : Flag) : f ∉ op.flags → r'.p.flag f = r.p.flag f
  shown : .negative ∈ op.flags → op.pullsFlags = false →
    r'.p.negative = hasBit (op.signed v r) 7 ∧ r'.p.zero = (op.result v r == 0)
  pulled : op.pullsFlags = true → r'.p = .pulled v

def Instruction.operandByte (i : Instruction) (mem : UInt16 → UInt8) (r : Registers) : UInt8 :=
  match i.operation with
  | .flow _ => mem (stackCell (r.sp + 1))
  | _ => if i.mode = .accumulator then r.a else mem (i.mode.effective mem r)

/-! ### Sums -/

namespace Registers

theorem add_a (v : UInt8) (r : Registers) : (add v r).a = r.a + v + bitValue r.p.carry 0 := by
  change UInt8.ofNat (r.a.toNat + v.toNat + r.p.carry.toNat) = _
  rw [UInt8.ofNat_add, UInt8.ofNat_add, UInt8.ofNat_toNat, UInt8.ofNat_toNat]
  cases r.p.carry <;> rfl

theorem subtract_a (v : UInt8) (r : Registers) :
    (subtract v r).a = r.a - v - bitValue (!r.p.carry) 0 := by
  have hnot : v ^^^ 0xFF = 0xFF - v := by
    apply UInt8.eq_of_toBitVec_eq
    change v.toBitVec ^^^ BitVec.allOnes 8 = BitVec.allOnes 8 - v.toBitVec
    rw [BitVec.xor_allOnes, BitVec.allOnes_sub_eq_not]
  rw [subtract, add_a, hnot]
  cases r.p.carry
  · change r.a + (0xFF - v) + 0 = r.a - v - 1
    grind
  · change r.a + (0xFF - v) + 1 = r.a - v - 0
    grind

end Registers

/-! ### Operations -/

section
variable {v : UInt8} {r r' : Registers} {accumulator : Bool}

/-- The four operations that add end in a sum. -/
theorem Documented.sum {op : Operation} {u : UInt8} {c : Bool}
    (hop : op = .read .adc ∨ op = .read .sbc ∨ op = .modify .rra ∨ op = .modify .isc)
    (hsum : (Registers.add u (Registers.setCarry c r)).a = op.result v r) :
    Documented op accumulator v r (Registers.add u (Registers.setCarry c r)) := by
  have hshown : (Registers.add u (Registers.setCarry c r)).p.negative =
      hasBit (op.result v r) 7 ∧
      (Registers.add u (Registers.setCarry c r)).p.zero = (op.result v r == 0) :=
    hsum ▸ ⟨rfl, rfl⟩
  rcases hop with rfl | rfl | rfl | rfl
  all_goals
    refine ⟨hsum, rfl, rfl, rfl, fun f hf => ?_, fun _ _ => hshown, nofun⟩
    cases f <;> first | rfl | exact absurd (by decide) hf

theorem ReadOp.documented (op : ReadOp) : Documented (.read op) accumulator v r (op.apply v r) := by
  cases op
  case adc => exact .sum (c := r.p.carry) (.inl rfl) (Registers.add_a v r)
  case sbc => exact .sum (c := r.p.carry) (.inr (.inl rfl)) (Registers.subtract_a v r)
  all_goals
    refine ⟨rfl, rfl, rfl, rfl, fun f hf => ?_, fun _ _ => ⟨rfl, rfl⟩, nofun⟩
    cases f <;> first | rfl | exact absurd (by decide) hf

theorem ModifyOp.documented_memory (op : ModifyOp) : Documented (.modify op) false v r
    (op.finish (op.change v r).1 (op.change v r).2) := by
  cases op
  case rra => exact .sum (.inr (.inr (.inl rfl))) (Registers.add_a _ _)
  case isc => exact .sum (c := r.p.carry) (.inr (.inr (.inr rfl))) (Registers.subtract_a _ r)
  all_goals
    refine ⟨rfl, rfl, rfl, rfl, fun f hf => ?_, fun _ _ => ⟨rfl, rfl⟩, nofun⟩
    cases f <;> first | rfl | exact absurd (by decide) hf

def ModifyOp.onAccumulator : ModifyOp → Bool
  | .asl | .lsr | .rol | .ror => true
  | _ => false

theorem ModifyOp.documented_accumulator {op : ModifyOp} (h : op.onAccumulator = true) :
    Documented (.modify op) true v r
      (op.finish (op.change v r).1 { (op.change v r).2 with a := (op.change v r).1 }) := by
  cases op
  case asl | lsr | rol | ror =>
    refine ⟨rfl, rfl, rfl, rfl, fun f hf => ?_, fun _ _ => ⟨rfl, rfl⟩, nofun⟩
    cases f <;> first | rfl | exact absurd (by decide) hf
  all_goals cases h

theorem RegisterOp.documented (op : RegisterOp) :
    Documented (.register op) accumulator v r (op.apply r) := by
  cases op
  all_goals
    refine ⟨rfl, rfl, rfl, rfl, fun f hf => ?_, fun h _ => ?_, nofun⟩
    · cases f <;> first | rfl | exact absurd (by decide) hf
    · first | exact ⟨rfl, rfl⟩ | exact absurd h (by decide)

theorem StoreOp.documented (op : StoreOp) : Documented (.store op) accumulator v r r :=
  ⟨rfl, rfl, rfl, rfl, fun _ _ => rfl, nofun, nofun⟩

theorem BranchOp.documented (op : BranchOp) (operand : Operand) :
    Documented (.branch op) accumulator v r (op.leaves operand r) := by
  have hmoved : ∃ pc, op.leaves operand r = { r with pc := pc } := by
    unfold BranchOp.leaves
    cases operand with
    | displacement offset =>
      dsimp only
      split
      · exact ⟨_, rfl⟩
      · exact ⟨r.pc, rfl⟩
    | implied | accumulator | memory => exact ⟨r.pc, rfl⟩
  obtain ⟨pc, hpc⟩ := hmoved
  rw [hpc]
  exact ⟨rfl, rfl, rfl, rfl, fun _ _ => rfl, nofun, nofun⟩

theorem FlowOp.documented (op : FlowOp) (mem : UInt16 → UInt8) (operand : Operand) :
    Documented (.flow op) accumulator (mem (stackCell (r.sp + 1))) r (op.leaves mem operand r) := by
  cases op
  all_goals
    refine ⟨rfl, rfl, rfl, rfl, fun f hf => ?_, fun h hp => ?_, fun hp => ?_⟩
    · cases f <;> first | rfl | exact absurd (by decide) hf
    · first | exact ⟨rfl, rfl⟩ | exact absurd h (by decide) | cases hp
    · first | rfl | cases hp

/-- What an operation finds when it starts is what its instruction found. -/
theorem Documented.of_started {op : Operation} (pc : UInt16)
    (h : Documented op accumulator v (r.started pc) r') : Documented op accumulator v r r' := by
  have hresult : op.result v (r.started pc) = op.result v r := by
    rcases op with op | op | op | op | op | op <;> cases op <;> rfl
  have hsigned : op.signed v (r.started pc) = op.signed v r := by
    rw [Operation.signed, Operation.signed, hresult]
  have hpointer : op.stackPointer (r.started pc) = op.stackPointer r := by
    rcases op with op | op | op | op | op | op <;> cases op <;> rfl
  have hflag (f : Flag) : (r.started pc).p.flag f = r.p.flag f := by cases f <;> rfl
  obtain ⟨ha, hx, hy, hsp, hflags, hshown, hpulled⟩ := h
  rw [hresult] at ha hx hy hshown
  rw [hsigned] at hshown
  exact ⟨ha, hx, hy, hsp.trans hpointer, fun f hf => (hflags f hf).trans (hflag f), hshown, hpulled⟩

/-! ### Instructions -/

namespace Instruction

theorem decode?_accumulator {opcode : UInt8} {op : ModifyOp} {cycles : Nat}
    (hi : decode? opcode = some ⟨.modify op, .accumulator, cycles⟩) : op.onAccumulator = true :=
  of_decode? (p := fun i => match i with
    | ⟨.modify op, .accumulator, _⟩ => op.onAccumulator
    | _ => true) (by decide) hi

theorem documented_leaves {opcode : UInt8} {i : Instruction} (hi : decode? opcode = some i)
    (mem : UInt16 → UInt8) : Documented i.operation (i.mode == .accumulator) (i.operandByte mem r) r
      (i.leaves mem r) := by
  have hformed := decode?_formed hi
  obtain ⟨operation, mode, cycles⟩ := i
  have hbyte (h : mode.inMemory = true) : (mode.resolved mem r).operand =
      .memory (mode.effective mem r) ∧ mode ≠ .accumulator :=
    ⟨AddressingMode.resolved_operand h, by rintro rfl; cases h⟩
  refine Documented.of_started (r.pc + 1 + UInt16.ofNat mode.operandLength) ?_
  cases operation with
  | read op =>
    obtain ⟨hoperand, hmode⟩ := hbyte hformed
    simp only [leaves, Operation.leaves, operandByte, hoperand, Operand.byte, if_neg hmode]
    exact op.documented
  | store op =>
    obtain ⟨hoperand, -⟩ := hbyte hformed
    simp only [leaves, Operation.leaves, hoperand, Operand.stored]
    exact op.documented
  | modify op =>
    by_cases hmode : mode = .accumulator
    · subst hmode
      exact ModifyOp.documented_accumulator (decode?_accumulator hi)
    · have hmemory : mode.inMemory = true := by simpa [formed, hmode] using hformed
      obtain ⟨hoperand, -⟩ := hbyte hmemory
      simp only [leaves, Operation.leaves, operandByte, hoperand, Operand.byte, Operand.stored,
        if_neg hmode, beq_false_of_ne hmode]
      exact op.documented_memory
  | register op => exact op.documented
  | branch op => exact op.documented _
  | flow op =>
    exact FlowOp.documented (r := r.started _) op mem (mode.resolved mem r).operand

end Instruction
end

namespace Cpu

/-- Over a memory that answers everywhere every legal opcode runs. It changes the registers and
flags that its operation is documented to change, and of the rest of the processor its cycles to
wait alone. The cycle at an instruction boundary runs it and counts itself. -/
theorem instruction_changes {w : Wired Cpu (FlatMemory 0x10000)} {i : Instruction}
    (hholes : w.bus.holes = [])
    (hi : Instruction.decode? (w.bus.content w.chip.registers.pc) = some i) :
    ∃ v, executeNext w = .ok () v ∧
      Documented i.operation (i.mode == .accumulator)
        (i.operandByte w.bus.content w.chip.registers) w.chip.registers v.chip.registers ∧
      (∃ n, v.chip = { w.chip with registers := v.chip.registers, remaining := n }) ∧
      (w.chip.fault = none → w.chip.remaining = 0 → w.chip.boundary = .instruction →
        w.chip.cycles + 1 < cycleLimit → clock w = .ok () (waited 1 v)) := by
  obtain ⟨n, mem', l, hlogs⟩ := logs_leaves hi
  obtain ⟨b, hnext, -, -⟩ := hlogs.ok hholes
  refine ⟨_, hnext, Instruction.documented_leaves hi _, ⟨n, rfl⟩, fun hfault hidle hdue hroom => ?_⟩
  have hclock := clock_idle hfault hidle
  rw [hdue, enter] at hclock
  rw [hclock, hnext]
  exact if_pos hroom

def atBreak : Wired Cpu (FlatMemory 0x10000) :=
  ⟨{ registers := { a := 0x80, pc := 0x0200, p := { carry := true } } }, .blank⟩

theorem instruction_changes_break : ∃ v, clock atBreak = .ok () (waited 1 v) ∧
    v.chip.registers.a = 0x80 ∧ v.chip.registers.sp = 0xFA ∧
    ∀ f, f ≠ .interruptDisable → v.chip.registers.p.flag f = atBreak.chip.registers.p.flag f := by
  have hi : Instruction.decode? (atBreak.bus.content atBreak.chip.registers.pc) =
      some ⟨.flow .brk, .implied, 7⟩ := by
    rw [atBreak, FlatMemory.content_blank]
    decide
  obtain ⟨v, -, hchanged, -, hclock⟩ := instruction_changes rfl hi
  exact ⟨v, hclock rfl rfl rfl (by decide), hchanged.a, hchanged.sp,
    fun f hf => hchanged.flags f fun hmem => hf (List.mem_singleton.1 hmem)⟩

end Cpu
end NesConsole
