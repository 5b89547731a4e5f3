import NesConsole.Proofs.Processor.Turns

/-! What a call, an interrupt or a push leaves on the stack, and that the return or the pull that
belongs to it takes all of it back, wherever in its page the stack pointer is. -/
namespace NesConsole

/-- Above `sp` the stack holds these bytes, with the one that is pulled first in front. -/
def Stacked (mem : UInt16 → UInt8) : UInt8 → List UInt8 → Prop
  | _, [] => True
  | sp, byte :: bytes => mem (stackCell (sp + 1)) = byte ∧ Stacked mem (sp + 1) bytes

structure Frame (mem mem' : UInt16 → UInt8) (sp : UInt8) (bytes : List UInt8) : Prop where
  stacked : Stacked mem' sp bytes
  beside (address : UInt16) : highByte address ≠ 1 → mem' address = mem address

def pulls {β : Type} [Bus β] : Nat → Execution β (List UInt8)
  | 0 => return []
  | n + 1 => do
    let byte ← pull
    return byte :: (← pulls n)

section
variable {mem₀ mem mem' : UInt16 → UInt8} {r r' : Registers} {sp : UInt8} {bytes : List UInt8}

theorem stackCell_inj {a b : UInt8} (h : stackCell a = stackCell b) : a = b := by
  rw [← stackAddress_eq_stackCell, ← stackAddress_eq_stackCell] at h
  have hlow := congrArg lowByte h
  rwa [stackAddress, stackAddress, lowByte_wordOf, lowByte_wordOf] at hlow

namespace Stacked

/-- A write to another cell of the stack leaves the bytes as they are. -/
theorem update {cell byte : UInt8} (h : Stacked mem sp bytes)
    (hcell : ∀ k < bytes.length, cell ≠ sp + 1 + UInt8.ofNat k) :
    Stacked (Function.update mem (stackCell cell) byte) sp bytes := by
  induction bytes generalizing sp with
  | nil => trivial
  | cons first bytes ih =>
    have hfirst : sp + 1 ≠ cell := by
      have h₀ := hcell 0 (Nat.zero_lt_succ _)
      rw [show UInt8.ofNat 0 = 0 from rfl, UInt8.add_zero] at h₀
      exact h₀.symm
    refine ⟨?_, ih h.2 fun k hk => ?_⟩
    · rw [Function.update_of_ne fun he => hfirst (stackCell_inj he)]
      exact h.1
    · have hsucc := hcell (k + 1) (Nat.succ_lt_succ hk)
      rw [Nat.add_comm k 1, UInt8.ofNat_add, ← UInt8.add_assoc] at hsucc
      exact hsucc

end Stacked

theorem highByte_stackCell (sp : UInt8) : highByte (stackCell sp) = 1 := by
  rw [← stackAddress_eq_stackCell, stackAddress, highByte_wordOf]

namespace Frame

theorem start : Frame mem mem sp [] := ⟨trivial, fun _ _ => rfl⟩

/-- A byte that is pushed lies in front of those that are there, up to a full page of them. -/
theorem push (h : Frame mem mem' sp bytes) (hroom : bytes.length < 256) (byte : UInt8) :
    Frame mem (Function.update mem' (stackCell sp) byte) (sp - 1) (byte :: bytes) := by
  have hback : sp - 1 + 1 = sp := UInt8.sub_add_cancel sp 1
  refine ⟨⟨?_, ?_⟩, fun address haddress => ?_⟩
  · rw [hback, Function.update_self]
  · rw [hback]
    refine h.stacked.update fun k hk he => ?_
    have hzero := congrArg UInt8.toNat he
    rw [UInt8.add_assoc, UInt8.toNat_add, UInt8.toNat_add, UInt8.toNat_ofNat'] at hzero
    have hsp := sp.toNat_lt
    change sp.toNat = (sp.toNat + (1 + k % 256) % 256) % 256 at hzero
    omega
  · have hne : address ≠ stackCell sp := by
      rintro rfl
      exact haddress (highByte_stackCell sp)
    rw [Function.update_of_ne hne]
    exact h.beside address haddress

theorem pushWord (h : Frame mem mem' sp bytes) (hroom : bytes.length < 255) (w : UInt16) :
    Frame mem (Function.update (Function.update mem' (stackCell sp) (highByte w))
      (stackCell (sp - 1)) (lowByte w)) (sp - 2) (lowByte w :: highByte w :: bytes) := by
  have hsp : sp - 1 - 1 = sp - 2 := by grind
  have hlow := (h.push (by omega) (highByte w)).push (Nat.succ_lt_succ hroom) (lowByte w)
  rwa [hsp] at hlow

end Frame

/-! ### Pushes and pulls -/

theorem logs_pushes {pushed : List UInt8} (hroom : bytes.length + pushed.length ≤ 256)
    (h : Frame mem₀ mem r.sp pushed) : ∃ mem' l, Logs (bytes.forM push) r mem ()
      { r with sp := r.sp - UInt8.ofNat bytes.length } mem' l ∧
      Frame mem₀ mem' (r.sp - UInt8.ofNat bytes.length) (bytes.reverse ++ pushed) := by
  induction bytes generalizing mem r pushed with
  | nil =>
    rw [List.length_nil, show UInt8.ofNat 0 = 0 from rfl, UInt8.sub_zero]
    exact ⟨mem, [], .pure, h⟩
  | cons byte bytes ih =>
    rw [List.length_cons] at hroom
    have hrest : bytes.length + (byte :: pushed).length ≤ 256 := by
      rw [List.length_cons]
      omega
    obtain ⟨mem', l, hpushes, hframe⟩ :=
      ih (r := { r with sp := r.sp - 1 }) hrest (h.push (by omega) byte)
    have hsp : r.sp - 1 - UInt8.ofNat bytes.length = r.sp - UInt8.ofNat (bytes.length + 1) := by
      rw [UInt8.ofNat_add, show UInt8.ofNat 1 = 1 from rfl]
      grind
    rw [hsp] at hpushes hframe
    rw [List.length_cons, List.reverse_cons, List.append_assoc]
    exact ⟨mem', _, .bind (.push byte) hpushes, hframe⟩

theorem logs_pulls (h : Stacked mem r.sp bytes) : ∃ l, Logs (pulls bytes.length) r mem bytes
    { r with sp := r.sp + UInt8.ofNat bytes.length } mem l := by
  induction bytes generalizing r with
  | nil =>
    rw [List.length_nil, show UInt8.ofNat 0 = 0 from rfl, UInt8.add_zero]
    exact ⟨[], .pure⟩
  | cons byte bytes ih =>
    obtain ⟨hbyte, hrest⟩ := h
    obtain ⟨l, hpulls⟩ := ih (r := { r with sp := r.sp + 1 }) hrest
    have hsp : r.sp + 1 + UInt8.ofNat bytes.length = r.sp + UInt8.ofNat (bytes.length + 1) := by
      rw [UInt8.add_assoc, Nat.add_comm, UInt8.ofNat_add]
      rfl
    have hpull : Logs pull r mem (mem (stackCell (r.sp + 1))) { r with sp := r.sp + 1 } mem _ :=
      .pull
    rw [hbyte] at hpull
    rw [hsp] at hpulls
    exact ⟨_, .bind hpull (.bind hpulls .pure)⟩

/-! ### Frames -/

def IsVector (address : UInt16) : Prop := 0x200 ≤ address.toNat ∧ 0x200 ≤ (address + 1).toNat

theorem isVector_nmi : IsVector nmiVector := ⟨by decide, by decide⟩

theorem isVector_irq : IsVector irqVector := ⟨by decide, by decide⟩

theorem wordAt_update_stackCell {vector : UInt16} (h : IsVector vector) (sp byte : UInt8) :
    wordAt (Function.update mem (stackCell sp) byte) vector = wordAt mem vector := by
  rw [wordAt, wordAt, update_stackCell h.1, update_stackCell h.2]

/-- A return address and flags are pushed, and a vector is taken with interrupts masked. -/
theorem logs_frame {vector : UInt16} (h : IsVector vector) (back : UInt16)
    (flags : Registers → UInt8) : ∃ mem' l, Logs (do
        pushWord back
        push (← Wired.look flags)
        Wired.update fun r => { r with p := { r.p with interruptDisable := true } }
        jump (← readWord vector)) r mem ()
      { r with
        sp := r.sp - 3
        pc := wordAt mem vector
        p := { r.p with interruptDisable := true } } mem' l ∧
      Frame mem mem' (r.sp - 3) [flags { r with sp := r.sp - 2 }, lowByte back, highByte back] := by
  have hsp : r.sp - 2 - 1 = r.sp - 3 := by grind
  have hroom : ([lowByte back, highByte back] : List UInt8).length < 256 :=
    Nat.lt_add_of_pos_left (Nat.zero_lt_succ 253)
  have hempty : Frame mem mem r.sp [] := .start
  have hframe := (hempty.pushWord (Nat.zero_lt_succ 254) back).push hroom
    (flags { r with sp := r.sp - 2 })
  have hlogs : Logs (do
        pushWord back
        push (← Wired.look flags)
        Wired.update fun r => { r with p := { r.p with interruptDisable := true } }
        jump (← readWord vector)) r mem ()
      { r with
        sp := r.sp - 2 - 1
        p := { r.p with interruptDisable := true }
        pc := wordAt _ vector } _ _ :=
    .bind (.pushWord back) (.bind (.look _) (.bind (.push _)
      (.bind (.update _) (.bind (.readWord vector) (.update _)))))
  rw [wordAt_update_stackCell h, wordAt_update_stackCell h, wordAt_update_stackCell h, hsp]
    at hlogs
  rw [hsp] at hframe
  exact ⟨_, _, hlogs, hframe⟩

theorem logs_enterInterrupt (mem : UInt16 → UInt8) (r : Registers) {vector : UInt16}
    (h : IsVector vector) :
    ∃ mem' l, Logs (enterInterrupt vector) r mem ()
      { r with
        sp := r.sp - 3
        pc := wordAt mem vector
        p := { r.p with interruptDisable := true } } mem' l ∧
      Frame mem mem' (r.sp - 3) [r.p.pushedByInterrupt, lowByte r.pc, highByte r.pc] := by
  obtain ⟨mem', l, hlogs, hframe⟩ := logs_frame h r.pc (·.p.pushedByInterrupt)
  exact ⟨mem', _, .bind (.look _) hlogs, hframe⟩

namespace FlowOp
variable (mem r) (operand : Operand)

/-- The byte after a break is padding. -/
theorem logs_brk : ∃ mem' l, Logs (run .brk operand) r mem ()
      { r with
        sp := r.sp - 3
        pc := wordAt mem irqVector
        p := { r.p with interruptDisable := true } } mem' l ∧
      Frame mem mem' (r.sp - 3)
        [r.p.pushedBySoftware, lowByte (r.pc + 1), highByte (r.pc + 1)] := by
  obtain ⟨mem', l, hlogs, hframe⟩ := logs_frame isVector_irq (r.pc + 1) (·.p.pushedBySoftware)
  exact ⟨mem', _, .bind (.look _) hlogs, hframe⟩

theorem logs_jsr (address : UInt16) : ∃ mem' l, Logs (run .jsr (.memory address)) r mem ()
      { r with sp := r.sp - 2, pc := address } mem' l ∧
      Frame mem mem' (r.sp - 2) [lowByte (r.pc - 1), highByte (r.pc - 1)] := by
  have hcall : Logs (run .jsr (.memory address)) r mem () { r with sp := r.sp - 2, pc := address }
      _ _ :=
    .bind (.look _) (.bind (.pushWord (r.pc - 1)) (.bind (.look _) (.update _)))
  exact ⟨_, _, hcall, Frame.start.pushWord (Nat.zero_lt_succ 254) (r.pc - 1)⟩

theorem logs_pha : ∃ mem' l, Logs (run .pha operand) r mem () { r with sp := r.sp - 1 } mem' l ∧
    Frame mem mem' (r.sp - 1) [r.a] :=
  ⟨_, _, .bind (.look _) (.push _), Frame.start.push (Nat.zero_lt_succ 255) r.a⟩

theorem logs_php : ∃ mem' l, Logs (run .php operand) r mem () { r with sp := r.sp - 1 } mem' l ∧
    Frame mem mem' (r.sp - 1) [r.p.pushedBySoftware] :=
  ⟨_, _, .bind (.look _) (.push _), Frame.start.push (Nat.zero_lt_succ 255) _⟩

theorem logs_rti {flags low high : UInt8} (h : Stacked mem r.sp [flags, low, high]) :
    ∃ l, Logs (run .rti operand) r mem ()
      { r with sp := r.sp + 3, p := .pulled flags, pc := wordOf low high } mem l := by
  obtain ⟨rfl, rfl, rfl, -⟩ := h
  have hreturn : Logs (run .rti operand) r mem ()
      { r with
        sp := r.sp + 1 + 2
        p := .pulled (mem (stackCell (r.sp + 1)))
        pc := wordOf (mem (stackCell (r.sp + 1 + 1))) (mem (stackCell (r.sp + 1 + 2))) } mem _ :=
    .bind .pull (.bind (.update _) (.bind .pullWord (.update _)))
  have h₂ : r.sp + 1 + 2 = r.sp + 1 + 1 + 1 := by grind
  have h₃ : r.sp + 1 + 2 = r.sp + 3 := by grind
  rw [← h₂, ← h₃]
  exact ⟨_, hreturn⟩

theorem logs_rts {low high : UInt8} (h : Stacked mem r.sp [low, high]) :
    ∃ l, Logs (run .rts operand) r mem ()
      { r with sp := r.sp + 2, pc := wordOf low high + 1 } mem l := by
  obtain ⟨rfl, rfl, -⟩ := h
  have hreturn : Logs (run .rts operand) r mem ()
      { r with
        sp := r.sp + 2
        pc := wordOf (mem (stackCell (r.sp + 1))) (mem (stackCell (r.sp + 2))) + 1 } mem _ :=
    .bind .pullWord (.update _)
  have h₂ : r.sp + 1 + 1 = r.sp + 2 := by grind
  rw [h₂]
  exact ⟨_, hreturn⟩

theorem logs_pla {byte : UInt8} (h : Stacked mem r.sp [byte]) : ∃ l,
    Logs (run .pla operand) r mem () (Registers.loadA byte { r with sp := r.sp + 1 }) mem l := by
  obtain ⟨rfl, -⟩ := h
  exact ⟨_, .bind .pull (.update _)⟩

theorem logs_plp {flags : UInt8} (h : Stacked mem r.sp [flags]) : ∃ l,
    Logs (run .plp operand) r mem () { r with sp := r.sp + 1, p := .pulled flags } mem l := by
  obtain ⟨rfl, -⟩ := h
  exact ⟨_, .bind .pull (.update _)⟩

end FlowOp

/-! ### Turns that leave and take frames -/

namespace Cpu
variable {c : Cpu}

theorem logs_interrupt (mem : UInt16 → UInt8) (c : Cpu) {vector : UInt16} (h : IsVector vector) :
    ∃ mem' l, Logs (interrupt vector) c mem ()
      { c with
        registers :=
          { c.registers with
            sp := c.registers.sp - 3
            pc := wordAt mem vector
            p := { c.registers.p with interruptDisable := true } }
        remaining := interruptCycles } mem' l ∧
      Frame mem mem' (c.registers.sp - 3)
        [c.registers.p.pushedByInterrupt, lowByte c.registers.pc, highByte c.registers.pc] := by
  obtain ⟨mem', l, henter, hframe⟩ := logs_enterInterrupt mem c.registers h
  exact ⟨mem', _, .bind (.access (.onPart henter)) (.update _), hframe⟩

/-- An instruction that works on the stack or the program counter ends as its operation does. -/
theorem logs_flow {op : FlowOp} {mode : AddressingMode} {cycles : Nat} {l : List Access}
    (hi : Instruction.decode? (mem c.registers.pc) = some ⟨.flow op, mode, cycles⟩)
    (h : Logs (op.run (mode.resolved mem c.registers).operand)
      (c.registers.started (c.registers.pc + 1 + UInt16.ofNat mode.operandLength)) mem () r' mem'
        l) :
    ∃ l, Logs executeNext c mem () { c with registers := r', remaining := cycles } mem' l := by
  have hoperation : Logs (Operation.run (.flow op) (mode.resolved mem c.registers).operand)
      (c.registers.started (c.registers.pc + 1 + UInt16.ofNat mode.operandLength)) mem 0 r' mem'
      (l ++ []) := .bind h .pure
  have hrun := Instruction.logs_run (i := ⟨.flow op, mode, cycles⟩) hoperation
  have hextra : (if (mode.resolved mem c.registers).crossed && Operation.pagePenalty (.flow op)
      then 0 + 1 else 0) = 0 := by simp [Operation.pagePenalty]
  rw [hextra] at hrun
  exact ⟨_, logs_executeNext hi hrun⟩

/-- `v` has the registers and the memory of `w`, and no interrupt is due. Its cycles and its
interrupt lines may be others. -/
structure Resumes (w v : Wired Cpu (FlatMemory 0x10000)) : Prop where
  registers : v.chip.registers = w.chip.registers
  content : v.bus.content = w.bus.content
  holes : v.bus.holes = []
  fault : v.chip.fault = none
  due : v.chip.boundary = .instruction

/-- The next turn goes to `next`, with no interrupt due and no change of memory but on the stack.
If `back` is the opcode there, the turn after it ends with registers `r`, whatever else has happened
to the interrupt lines in between. -/
def Undone (w : Wired Cpu (FlatMemory 0x10000)) (cost : Nat) (next : UInt16) (back : UInt8)
    (cost' : Nat) (r : Registers) : Prop :=
  Turns w cost fun v => v.chip.registers.pc = next ∧ Resumes v v ∧
    (∀ address, highByte address ≠ 1 → v.bus.content address = w.bus.content address) ∧
    ∀ u, Resumes v u → u.bus.content next = back → Turns u cost' fun t => t.chip.registers = r

theorem undone_of_logs {w : Wired Cpu (FlatMemory 0x10000)} {l : List Access} {back : UInt8}
    {cost : Nat} (hfault : w.chip.fault = none) (hholes : w.bus.holes = [])
    (h : Logs (enter w.chip.boundary) (rested w).chip w.bus.content () c mem' l)
    (hc : c.fault = none) (hdue : c.boundary = .instruction) {sp : UInt8}
    (hframe : Frame w.bus.content mem' sp bytes)
    (hback : ∀ c' : Cpu, c'.registers = c.registers → mem' c'.registers.pc = back →
      ∃ l, Logs executeNext c' mem' () { c' with registers := r, remaining := cost } mem' l) :
    Undone w c.remaining c.registers.pc back cost r := by
  refine turns_of_logs hfault hholes h fun b hb hb' =>
    ⟨rfl, ⟨rfl, rfl, hb', hc, hdue⟩, fun address haddress => ?_, fun u hu hopcode => ?_⟩
  · exact (congrFun hb address).trans (hframe.beside address haddress)
  have hmem : u.bus.content = mem' := hu.content.trans hb
  have hnext : mem' (rested u).chip.registers.pc = back := by
    rw [← hmem, ← hopcode]
    exact congrArg (fun r : Registers => u.bus.content r.pc) hu.registers
  obtain ⟨l, hreturn⟩ := hback (rested u).chip hu.registers hnext
  rw [← hmem] at hreturn
  have hturn : Logs (enter u.chip.boundary) (rested u).chip u.bus.content ()
      { (rested u).chip with registers := r, remaining := cost } u.bus.content l := by
    rw [hu.due]
    exact hreturn
  exact turns_of_logs (P := fun t => t.chip.registers = r) hu.fault hu.holes hturn fun _ _ _ => rfl

/-! ### What takes each frame back -/

structure Ordinary (p : Status) : Prop where
  unused : p.unused = true
  brk : p.brk = false

theorem Ordinary.eq {p : Status} (h : Ordinary p) :
    { p with brk := false, unused := true } = p := by
  rw [← h.brk, ← h.unused]

theorem Ordinary.started {r : Registers} (h : Ordinary r.p) (pc : UInt16) :
    r.started pc = { r with pc := pc } := by
  rw [Registers.started, ← h.unused]

/-- An opcode without operand bytes. -/
theorem logs_implied {op : FlowOp} {opcode : UInt8} {cycles : Nat}
    (hi : Instruction.decode? opcode = some ⟨.flow op, .implied, cycles⟩)
    (hopcode : mem c.registers.pc = opcode) (hp : Ordinary c.registers.p)
    (h : ∃ l, Logs (op.run .implied) { c.registers with pc := c.registers.pc + 1 } mem () r' mem'
      l) :
    ∃ l, Logs executeNext c mem () { c with registers := r', remaining := cycles } mem' l := by
  obtain ⟨l, h⟩ := h
  rw [← hopcode] at hi
  rw [← hp.started, ← UInt16.add_zero (c.registers.pc + 1)] at h
  exact logs_flow hi h

variable {w : Wired Cpu (FlatMemory 0x10000)} {l : List Access}

/-- What has pushed three bytes and masked interrupts is taken back by a return from interrupt. -/
theorem undone_of_frame {flags : UInt8} {back next : UInt16} (hfault : w.chip.fault = none)
    (hholes : w.bus.holes = []) (hp : Ordinary w.chip.registers.p)
    (hpulled : Status.pulled flags = w.chip.registers.p)
    (h : Logs (enter w.chip.boundary) (rested w).chip w.bus.content () c mem' l)
    (hregisters : c.registers = { w.chip.registers with
      sp := w.chip.registers.sp - 3
      pc := next
      p := { w.chip.registers.p with interruptDisable := true } })
    (hc : c.fault = none) (hnmi : c.nmiPending = false)
    (hframe : Frame w.bus.content mem' (w.chip.registers.sp - 3)
      [flags, lowByte back, highByte back]) :
    Undone w c.remaining next 0x40 6 { w.chip.registers with pc := back } := by
  have hmasked : c.registers.p.interruptDisable = true := by rw [hregisters]
  have hpc : c.registers.pc = next := by rw [hregisters]
  have hdue : c.boundary = .instruction := by simp [boundary, hnmi, hmasked]
  have hsp : w.chip.registers.sp - 3 + 3 = w.chip.registers.sp := UInt8.sub_add_cancel _ _
  rw [← hpc]
  refine undone_of_logs hfault hholes h hc hdue hframe fun c' hc' hopcode => ?_
  rw [hregisters] at hc'
  have hp' : Ordinary c'.registers.p := by
    rw [hc']
    exact ⟨hp.unused, hp.brk⟩
  have hframe' : Stacked mem' c'.registers.sp [flags, lowByte back, highByte back] := by
    rw [hc']
    exact hframe.stacked
  have hreturn := logs_implied rfl hopcode hp' (FlowOp.logs_rti _ _ _ hframe')
  rwa [hc', hpulled, wordOf_bytes, hsp] at hreturn

theorem undone_nmi (hfault : w.chip.fault = none) (hholes : w.bus.holes = [])
    (hp : Ordinary w.chip.registers.p) (hnmi : w.chip.nmiPending = true) :
    Undone w 7 (wordAt w.bus.content nmiVector) 0x40 6 w.chip.registers := by
  obtain ⟨mem', l, hentry, hframe⟩ :=
    logs_interrupt w.bus.content { (rested w).chip with nmiPending := false } isVector_nmi
  have h : Logs (enter .nmi) (rested w).chip w.bus.content () _ mem' ([] ++ l) :=
    .bind (.update _) hentry
  rw [← (boundary_eq_nmi w.chip).2 hnmi] at h
  exact undone_of_frame hfault hholes hp ((Status.pulled_pushedByInterrupt _).trans hp.eq) h rfl
    hfault rfl hframe

theorem undone_irq (hfault : w.chip.fault = none) (hholes : w.bus.holes = [])
    (hp : Ordinary w.chip.registers.p) (hnmi : w.chip.nmiPending = false)
    (hirq : w.chip.irqLine = true) (hopen : w.chip.registers.p.interruptDisable = false) :
    Undone w 7 (wordAt w.bus.content irqVector) 0x40 6 w.chip.registers := by
  obtain ⟨mem', l, hentry, hframe⟩ :=
    logs_interrupt w.bus.content (rested w).chip isVector_irq
  have hdue : w.chip.boundary = .irq := by simp [boundary, hnmi, hirq, hopen]
  have h : Logs (enter .irq) (rested w).chip w.bus.content () _ mem' l := hentry
  rw [← hdue] at h
  exact undone_of_frame hfault hholes hp ((Status.pulled_pushedByInterrupt _).trans hp.eq) h rfl
    hfault hnmi hframe

/-! The rest are due at an opcode. -/

variable (hfault : w.chip.fault = none) (hholes : w.bus.holes = [])
  (hp : Ordinary w.chip.registers.p) (hdue : w.chip.boundary = .instruction)
include hp hdue

omit hfault hholes in
theorem logs_due {op : FlowOp} {opcode : UInt8} {mode : AddressingMode} {cycles : Nat}
    (hi : Instruction.decode? opcode = some ⟨.flow op, mode, cycles⟩)
    (hopcode : w.bus.content w.chip.registers.pc = opcode)
    (h : Logs (op.run (mode.resolved w.bus.content w.chip.registers).operand)
      { w.chip.registers with
        pc := w.chip.registers.pc + 1 + UInt16.ofNat mode.operandLength } w.bus.content () r' mem'
      l) :
    ∃ l, Logs (enter w.chip.boundary) (rested w).chip w.bus.content ()
      { (rested w).chip with registers := r', remaining := cycles } mem' l := by
  rw [← hp.started] at h
  rw [← hopcode] at hi
  obtain ⟨l, hnext⟩ := logs_flow (c := (rested w).chip) hi h
  rw [hdue]
  exact ⟨l, hnext⟩

include hfault hholes

theorem undone_brk (hopcode : w.bus.content w.chip.registers.pc = 0x00) :
    Undone w 7 (wordAt w.bus.content irqVector) 0x40 6
      { w.chip.registers with pc := w.chip.registers.pc + 2 } := by
  obtain ⟨mem', l, hbreak, hframe⟩ := FlowOp.logs_brk w.bus.content
    { w.chip.registers with pc := w.chip.registers.pc + 1 + UInt16.ofNat 0 } .implied
  obtain ⟨l, h⟩ := logs_due hp hdue rfl hopcode hbreak
  have hnmi : w.chip.nmiPending = false := nmiPending_of_boundary (by rw [hdue]; decide)
  have hpc : w.chip.registers.pc + 1 + UInt16.ofNat 0 + 1 = w.chip.registers.pc + 2 := by
    rw [show UInt16.ofNat 0 = 0 from rfl]
    grind
  dsimp only at hframe
  rw [hpc] at hframe
  exact undone_of_frame hfault hholes hp ((Status.pulled_pushedBySoftware _).trans hp.eq) h rfl
    hfault hnmi hframe

/-- What has moved the stack pointer and the program counter alone is taken back by an opcode
without operand bytes. -/
theorem undone_of_push {op : FlowOp} {sp : UInt8} {next : UInt16} {opcode : UInt8}
    {cost cost' : Nat} (h : Logs (enter w.chip.boundary) (rested w).chip w.bus.content ()
      { (rested w).chip with
        registers := { w.chip.registers with sp := sp, pc := next }, remaining := cost } mem' l)
    (hframe : Frame w.bus.content mem' sp bytes)
    (hi : Instruction.decode? opcode = some ⟨.flow op, .implied, cost'⟩)
    (hback : ∃ l, Logs (op.run .implied) { w.chip.registers with sp := sp, pc := next + 1 } mem' ()
      r mem' l) : Undone w cost next opcode cost' r := by
  refine undone_of_logs (c := { (rested w).chip with
    registers := { w.chip.registers with sp := sp, pc := next }, remaining := cost })
    hfault hholes h hfault hdue hframe fun c hc hopcode => ?_
  have hp' : Ordinary c.registers.p := by
    rw [hc]
    exact hp
  refine logs_implied hi hopcode hp' ?_
  rw [hc]
  exact hback

theorem undone_jsr (hopcode : w.bus.content w.chip.registers.pc = 0x20) :
    Undone w 6 (wordAt w.bus.content (w.chip.registers.pc + 1)) 0x60 6
      { w.chip.registers with pc := w.chip.registers.pc + 3 } := by
  obtain ⟨mem', l, hcall, hframe⟩ := FlowOp.logs_jsr w.bus.content
    { w.chip.registers with pc := w.chip.registers.pc + 1 + UInt16.ofNat 2 }
    (wordAt w.bus.content (w.chip.registers.pc + 1))
  obtain ⟨l, h⟩ := logs_due hp hdue rfl hopcode hcall
  have hsp : w.chip.registers.sp - 2 + 2 = w.chip.registers.sp := UInt8.sub_add_cancel _ _
  have hpc : w.chip.registers.pc + 1 + UInt16.ofNat 2 - 1 + 1 = w.chip.registers.pc + 3 := by
    rw [show UInt16.ofNat 2 = 2 from rfl]
    grind
  refine undone_of_push hfault hholes hp hdue h hframe rfl ?_
  obtain ⟨l, hreturn⟩ := FlowOp.logs_rts mem'
    { w.chip.registers with
      sp := w.chip.registers.sp - 2
      pc := wordAt w.bus.content (w.chip.registers.pc + 1) + 1 } .implied hframe.stacked
  rw [wordOf_bytes] at hreturn
  dsimp only at hreturn
  rw [hsp, hpc] at hreturn
  exact ⟨l, hreturn⟩

theorem undone_php (hopcode : w.bus.content w.chip.registers.pc = 0x08) :
    Undone w 3 (w.chip.registers.pc + 1) 0x28 4
      { w.chip.registers with pc := w.chip.registers.pc + 2 } := by
  obtain ⟨mem', l, hpush, hframe⟩ := FlowOp.logs_php w.bus.content
    { w.chip.registers with pc := w.chip.registers.pc + 1 + UInt16.ofNat 0 } .implied
  obtain ⟨l, h⟩ := logs_due hp hdue rfl hopcode hpush
  have hsp : w.chip.registers.sp - 1 + 1 = w.chip.registers.sp := UInt8.sub_add_cancel _ _
  have hnext : w.chip.registers.pc + 1 + UInt16.ofNat 0 = w.chip.registers.pc + 1 :=
    UInt16.add_zero _
  have hpc : w.chip.registers.pc + 1 + 1 = w.chip.registers.pc + 2 := UInt16.add_assoc _ _ _
  rw [hnext] at h
  rw [← hpc]
  refine undone_of_push hfault hholes hp hdue h hframe rfl ?_
  obtain ⟨l, hpull⟩ := FlowOp.logs_plp mem'
    { w.chip.registers with
      sp := w.chip.registers.sp - 1, pc := w.chip.registers.pc + 1 + 1 } .implied hframe.stacked
  dsimp only at hpull
  rw [hsp, Status.pulled_pushedBySoftware, hp.eq] at hpull
  exact ⟨l, hpull⟩

theorem undone_pha (hopcode : w.bus.content w.chip.registers.pc = 0x48) :
    Undone w 3 (w.chip.registers.pc + 1) 0x68 4
      (Registers.loadA w.chip.registers.a
        { w.chip.registers with pc := w.chip.registers.pc + 2 }) := by
  obtain ⟨mem', l, hpush, hframe⟩ := FlowOp.logs_pha w.bus.content
    { w.chip.registers with pc := w.chip.registers.pc + 1 + UInt16.ofNat 0 } .implied
  obtain ⟨l, h⟩ := logs_due hp hdue rfl hopcode hpush
  have hsp : w.chip.registers.sp - 1 + 1 = w.chip.registers.sp := UInt8.sub_add_cancel _ _
  have hnext : w.chip.registers.pc + 1 + UInt16.ofNat 0 = w.chip.registers.pc + 1 :=
    UInt16.add_zero _
  have hpc : w.chip.registers.pc + 1 + 1 = w.chip.registers.pc + 2 := UInt16.add_assoc _ _ _
  rw [hnext] at h
  rw [← hpc]
  refine undone_of_push hfault hholes hp hdue h hframe rfl ?_
  obtain ⟨l, hpull⟩ := FlowOp.logs_pla mem'
    { w.chip.registers with
      sp := w.chip.registers.sp - 1, pc := w.chip.registers.pc + 1 + 1 } .implied hframe.stacked
  dsimp only at hpull
  rw [hsp] at hpull
  exact ⟨l, hpull⟩

end Cpu

/-- Bytes that are pushed come back in reverse, with the stack pointer where it was. -/
theorem pulls_pushed {b : FlatMemory 0x10000} (hholes : b.holes = []) (h : bytes.length ≤ 256) :
    ∃ b', (do
      bytes.forM push
      pulls bytes.length) ⟨r, b⟩ = .ok bytes.reverse (⟨r, b'⟩ : Wired _ (FlatMemory 0x10000)) := by
  have hempty : Frame b.content b.content r.sp [] := .start
  have hroom : bytes.length + ([] : List UInt8).length ≤ 256 := h
  obtain ⟨mem', l, hpushes, hframe⟩ := logs_pushes hroom hempty
  rw [List.append_nil] at hframe
  obtain ⟨l', hpulls⟩ := logs_pulls
    (r := { r with sp := r.sp - UInt8.ofNat bytes.length }) hframe.stacked
  dsimp only at hpulls
  rw [List.length_reverse, UInt8.sub_add_cancel] at hpulls
  have hboth : Logs (bytes.forM push >>= fun _ => pulls bytes.length) r b.content bytes.reverse r
      mem' (l ++ l') := .bind hpushes hpulls
  obtain ⟨b', hok, -, -⟩ := hboth.ok hholes
  exact ⟨b', hok⟩

/-- What is pushed is taken back exactly: by a return from interrupt after an interrupt entry or a
break, by a return after a call, by the pull that belongs to a push, and byte by byte. -/
theorem frames_are_undone (w : Wired Cpu (FlatMemory 0x10000)) (hfault : w.chip.fault = none)
    (hholes : w.bus.holes = []) (hunused : w.chip.registers.p.unused = true)
    (hbrk : w.chip.registers.p.brk = false) :
    let r := w.chip.registers
    let mem := w.bus.content
    let interrupted := w.chip.irqLine = true ∧ r.p.interruptDisable = false
    (w.chip.nmiPending = true → Cpu.Undone w 7 (wordAt mem nmiVector) 0x40 6 r) ∧
    (w.chip.nmiPending = false → interrupted →
      Cpu.Undone w 7 (wordAt mem irqVector) 0x40 6 r) ∧
    (w.chip.nmiPending = false → ¬interrupted →
      (mem r.pc = 0x00 → Cpu.Undone w 7 (wordAt mem irqVector) 0x40 6 { r with pc := r.pc + 2 }) ∧
      (mem r.pc = 0x20 → Cpu.Undone w 6 (wordAt mem (r.pc + 1)) 0x60 6 { r with pc := r.pc + 3 }) ∧
      (mem r.pc = 0x08 → Cpu.Undone w 3 (r.pc + 1) 0x28 4 { r with pc := r.pc + 2 }) ∧
      (mem r.pc = 0x48 →
        Cpu.Undone w 3 (r.pc + 1) 0x68 4 (.loadA r.a { r with pc := r.pc + 2 }))) ∧
    ∀ bytes : List UInt8, bytes.length ≤ 256 → ∃ b, (do
      bytes.forM push
      pulls bytes.length) ⟨r, w.bus⟩ =
        .ok bytes.reverse (⟨r, b⟩ : Wired Registers (FlatMemory 0x10000)) := by
  intro r mem interrupted
  have hp : Cpu.Ordinary r.p := ⟨hunused, hbrk⟩
  refine ⟨Cpu.undone_nmi hfault hholes hp,
    fun hnmi hirq => Cpu.undone_irq hfault hholes hp hnmi hirq.1 hirq.2,
    fun hnmi hnone => ?_, fun bytes h => pulls_pushed hholes h⟩
  have hdue : w.chip.boundary = .instruction := by
    have hmasked : (w.chip.irqLine && !w.chip.registers.p.interruptDisable) = false := by
      simpa [interrupted] using hnone
    simp [Cpu.boundary, hnmi, hmasked]
  exact ⟨Cpu.undone_brk hfault hholes hp hdue, Cpu.undone_jsr hfault hholes hp hdue,
    Cpu.undone_php hfault hholes hp hdue, Cpu.undone_pha hfault hholes hp hdue⟩

/-- Without an interrupt in between the return is taken where the memory has its opcode. -/
theorem Cpu.Undone.exists_turns {w : Wired Cpu (FlatMemory 0x10000)} {cost cost' : Nat}
    {next : UInt16} {opcode : UInt8} (h : Cpu.Undone w cost next opcode cost' r)
    (hroom : w.chip.cycles + w.chip.remaining + cost + cost' < cycleLimit)
    (hbeside : highByte next ≠ 1) (hopcode : w.bus.content next = opcode) :
    ∃ v t, Cpu.step w = .ok cost v ∧ v.chip.registers.pc = next ∧ Cpu.step v = .ok cost' t ∧
      t.chip.registers = r := by
  obtain ⟨v, hv, hidle, hcycles, hpc, hresumes, hmem, hback⟩ :=
    Cpu.Turns.exists_ok h (Nat.lt_of_le_of_lt (Nat.le_add_right _ cost') hroom)
  have hturn := hback v hresumes ((hmem next hbeside).trans hopcode)
  rw [← hcycles, ← Nat.add_zero v.chip.cycles, ← hidle] at hroom
  obtain ⟨t, ht, -, -, hregisters⟩ := Cpu.Turns.exists_ok hturn hroom
  exact ⟨v, t, hv, hpc, ht, hregisters⟩

/-- Returns from interrupt at address zero, where the NMI vector points, and from a call at address
`$40`, where the call at the end of the address space goes. -/
def wrapMemory : FlatMemory 0x10000 :=
  ((FlatMemory.blank.set (0 : UInt16).toNat 0x40).set (0x40 : UInt16).toNat 0x60).set
    (0xFFFF : UInt16).toNat 0x20

/-- An interrupt to come, the stack pointer near the end of its page and the program counter near
the end of the address space. -/
def atWrap : Wired Cpu (FlatMemory 0x10000) :=
  ⟨{ registers := { a := 1, sp := 0x01, pc := 0xFFFE }, nmiPending := true }, wrapMemory⟩

def callAtWrap : Wired Cpu (FlatMemory 0x10000) :=
  ⟨{ registers := { a := 1, sp := 0x00, pc := 0xFFFF } }, wrapMemory⟩

theorem frames_are_undone_at_wrap :
    (∃ v t, Cpu.step atWrap = .ok 7 v ∧ v.chip.registers.pc = 0 ∧ Cpu.step v = .ok 6 t ∧
      t.chip.registers = atWrap.chip.registers) ∧
    ∃ v t, Cpu.step callAtWrap = .ok 6 v ∧ v.chip.registers.pc = 0x40 ∧ Cpu.step v = .ok 6 t ∧
      t.chip.registers = { callAtWrap.chip.registers with pc := 2 } := by
  have hcontent : wrapMemory.content = Function.update (Function.update
      (Function.update (fun _ => 0) 0 0x40) 0x40 0x60) 0xFFFF 0x20 := by
    rw [wrapMemory, FlatMemory.content_set, FlatMemory.content_set, FlatMemory.content_set,
      FlatMemory.content_blank]
  have hvector : wordAt atWrap.bus.content nmiVector = 0 := by
    change wordAt wrapMemory.content nmiVector = 0
    rw [hcontent]
    decide
  have htarget : wordAt callAtWrap.bus.content (callAtWrap.chip.registers.pc + 1) = 0x40 := by
    change wordAt wrapMemory.content (0xFFFF + 1) = 0x40
    rw [hcontent]
    decide
  have hreturn : wrapMemory.content 0 = 0x40 := by
    rw [hcontent]
    decide
  have hback : wrapMemory.content 0x40 = 0x60 := by
    rw [hcontent]
    decide
  have hcall : wrapMemory.content 0xFFFF = 0x20 := by
    rw [hcontent]
    decide
  have hinterrupt := (frames_are_undone atWrap rfl rfl rfl rfl).1 rfl
  have hjsr := ((frames_are_undone callAtWrap rfl rfl rfl rfl).2.2.1 rfl nofun).2.1 hcall
  rw [hvector] at hinterrupt
  rw [htarget] at hjsr
  exact ⟨hinterrupt.exists_turns (by decide) (by decide) hreturn,
    hjsr.exists_turns (by decide) (by decide) hback⟩

end
end NesConsole
