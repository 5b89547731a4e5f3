import NesConsole.Cpu.Clock
import NesConsole.Proofs.Outcomes

/-! What instructions and interrupt entries are built of: accesses, looks at the registers and
changes of them, each of a few kinds. What holds of these parts, and of one after another, holds of
every program of the processor, by induction on how it is built. -/
namespace NesConsole

/-! ### Looks and changes -/

namespace Registers

def withDecimal (d : Bool) (r : Registers) : Registers := { r with p := { r.p with decimal := d } }

def Hides {α : Type} (g : Registers → α) : Prop := ∀ d r, g r = g (r.withDecimal d)

/-- A change that keeps bit 5 of the flags set and the break bit clear, and that comes to the same
but for the decimal flag where that was another. -/
structure Sound (g : Registers → Registers) : Prop where
  unused (r : Registers) : r.p.unused = true → (g r).p.unused = true
  brk (r : Registers) : r.p.brk = false → (g r).p.brk = false
  decimal (d : Bool) (r : Registers) :
    (g r).withDecimal false = (g (r.withDecimal d)).withDecimal false

/-- The program counter has gone up `k` bytes, and nothing else but the stack pointer and the flags
has changed. -/
def Passed (k : Nat) (r s : Registers) : Prop :=
  s.a = r.a ∧ s.x = r.x ∧ s.y = r.y ∧ s.pc = r.pc + UInt16.ofNat k

theorem Passed.none {r s : Registers} (ha : s.a = r.a) (hx : s.x = r.x) (hy : s.y = r.y)
    (hpc : s.pc = r.pc) : Passed 0 r s :=
  ⟨ha, hx, hy, hpc.trans (UInt16.add_zero r.pc).symm⟩

theorem Passed.one {r s : Registers} (ha : s.a = r.a) (hx : s.x = r.x) (hy : s.y = r.y)
    (hpc : s.pc = r.pc + 1) : Passed 1 r s := ⟨ha, hx, hy, hpc⟩

end Registers

open Registers (Hides Sound Passed)

namespace Registers.Sound

/-- Where flags stay or are set to fixed values, both facts can be read off. -/
theorem of_rfl {g : Registers → Registers}
    (hflags : ∀ r, (g r).p.unused = r.p.unused ∧ (g r).p.brk = r.p.brk)
    (hdecimal : ∀ d r, (g r).withDecimal false = (g (r.withDecimal d)).withDecimal false) :
    Sound g :=
  ⟨fun r h => (hflags r).1.trans h, fun r h => (hflags r).2.trans h, hdecimal⟩

theorem read (op : ReadOp) (v : UInt8) : Sound fun r => op.apply v r := by
  cases op <;> exact of_rfl (fun _ => ⟨rfl, rfl⟩) fun _ _ => rfl

theorem change (op : ModifyOp) (v : UInt8) : Sound fun r => (op.change v r).2 := by
  cases op <;> exact of_rfl (fun _ => ⟨rfl, rfl⟩) fun _ _ => rfl

theorem finish (op : ModifyOp) (v : UInt8) : Sound fun r => op.finish v r := by
  cases op <;> exact of_rfl (fun _ => ⟨rfl, rfl⟩) fun _ _ => rfl

theorem register (op : RegisterOp) : Sound fun r => op.apply r := by
  cases op <;> exact of_rfl (fun _ => ⟨rfl, rfl⟩) fun _ _ => rfl

theorem mask : Sound fun r => { r with p := { r.p with interruptDisable := true } } :=
  of_rfl (fun _ => ⟨rfl, rfl⟩) fun _ _ => rfl

theorem opcode : Sound fun r => { r with pc := r.pc + 1, p := { r.p with unused := true } } :=
  ⟨fun _ _ => rfl, fun _ h => h, fun _ _ => rfl⟩

end Registers.Sound

theorem ModifyOp.hides_change (op : ModifyOp) (v : UInt8) : Hides fun r => (op.change v r).1 := by
  cases op <;> exact fun _ _ => rfl

theorem ModifyOp.passed_change (op : ModifyOp) (v : UInt8) (r : Registers) :
    Passed 0 r (op.change v r).2 := by
  cases op <;> exact .none rfl rfl rfl rfl

theorem BranchOp.hides_holds (op : BranchOp) : Hides fun r => op.holds r.p := by
  cases op <;> exact fun _ _ => rfl

theorem StoreOp.hides_source (op : StoreOp) : Hides op.source := by
  cases op <;> exact fun _ _ => rfl

theorem Operand.hides_target (operand : Operand) : Hides operand.target := by
  cases operand <;> exact fun _ _ => rfl

/-! ### Parts -/

/-- Where a program stands. It has taken so many bytes at the program counter, and after so many
accesses comes the one that hands over flags, if one does; or else no access is to come. -/
inductive Stage where
  | ahead (taken : Nat) (place : Option Nat)
  | last

def Stage.place : Stage → Option Nat
  | ahead _ p => p
  | last => none

def placeBefore : Nat → Option Nat → Option Nat
  | 0, p => p
  | k + 1, p => (placeBefore k p).map (· + 1)

theorem placeBefore_none (k : Nat) : placeBefore k none = none := by
  induction k with
  | zero => rfl
  | succ k ih => exact congrArg (Option.map (· + 1)) ih

/-- A program of the registers that is the same on every bus. -/
abbrev Program (α : Type) := ∀ (β : Type) [Bus β], Execution β α

def pushFlags {β : Type} [Bus β] (flags : Registers → UInt8) : Execution β Unit := do
  push (← Wired.look flags)

def pullFlags {β : Type} [Bus β] : Execution β Unit := do
  let v ← pull
  Wired.update fun r => { r with p := .pulled v }

/-- Programs that lead from a stage to a stage. They write in `S` and take `N` bytes at most. -/
inductive Built (S : UInt16 → Prop) (N : Nat) : Stage → Stage → {α : Type} → Program α → Prop where
  | pure {s : Stage} {α : Type} (a : α) : Built S N s s fun _ _ => Pure.pure a
  | bind {s t u : Stage} {α δ : Type} {x : Program δ} {f : δ → Program α} :
      Built S N s t x → (∀ d, Built S N t u (f d)) →
      Built S N s u fun β _ => x β >>= fun d => f d β
  | close {s t : Stage} {α : Type} {x : Program α} : t.place = none → Built S N s t x →
      Built S N s .last x
  | look {s : Stage} {α : Type} {g : Registers → α} : Hides g →
      Built S N s s fun _ _ => Wired.look g
  /-- A change that leaves A, X, Y and the program counter. -/
  | rest {s : Stage} {g : Registers → Registers} : Sound g → (∀ r, Passed 0 r (g r)) →
      Built S N s s fun _ _ => Wired.update g
  | take {n : Nat} {p : Option Nat} {g : Registers → Registers} : n < N → Sound g →
      (∀ r, Passed 1 r (g r)) →
      Built S N (.ahead n p) (.ahead (n + 1) p) fun _ _ => Wired.update g
  | change {s : Stage} {g : Registers → Registers} : s.place = none → Sound g →
      Built S N s .last fun _ _ => Wired.update g
  | read {n : Nat} {p : Option Nat} (address : UInt16) :
      Built S N (.ahead n (placeBefore 1 p)) (.ahead n p) fun _ _ => Wired.read address
  | write {n : Nat} {p : Option Nat} {address : UInt16} (data : UInt8) : S address →
      Built S N (.ahead n (placeBefore 1 p)) (.ahead n p)
        fun _ _ => Wired.write address data
  | pushFlags {n : Nat} {flags : Registers → UInt8} (h : flags = (·.p.pushedBySoftware) ∨
      flags = (·.p.pushedByInterrupt)) : (∀ sp, S (stackAddress sp)) →
      Built S N (.ahead n (some 0)) (.ahead n none) fun _ _ => NesConsole.pushFlags flags
  | pullFlags {n : Nat} :
      Built S N (.ahead n (some 0)) (.ahead n none) fun _ _ => NesConsole.pullFlags

/-! ### Instructions -/

def AddressingMode.reads : AddressingMode → Nat
  | .implied | .accumulator | .immediate => 0
  | .relative | .zeroPage | .zeroPageX | .zeroPageY => 1
  | .absolute | .absoluteX | .absoluteY => 2
  | .indexedIndirect | .indirectIndexed => 3
  | .indirect => 4

def FlowOp.flagsPlace : FlowOp → Option Nat
  | .php | .plp | .rti => some 0
  | .brk => some 2
  | _ => none

def Operation.flagsPlace : Operation → Option Nat
  | .flow op => op.flagsPlace
  | _ => none

def Operation.stores : Operation → Bool
  | .store _ | .modify _ => true
  | _ => false

namespace Built
variable {S : UInt16 → Prop} {N n : Nat} {s : Stage} {p : Option Nat}

theorem congr {t : Stage} {α : Type} {x y : Program α} (hxy : ∀ (β : Type) [Bus β], x β = y β)
    (h : Built S N s t y) : Built S N s t x := by
  have heq : x = y := by
    funext β _
    exact hxy β
  rwa [heq]

theorem readWord (address : UInt16) : Built S N (.ahead n (placeBefore 2 p))
    (.ahead n p) fun _ _ => NesConsole.readWord address := by
  refine .bind (.read address) fun low => ?_
  refine .bind (.read (address + 1)) fun high => ?_
  exact .pure (wordOf low high)

theorem readZeroPageWord (pointer : UInt8) : Built S N (.ahead n (placeBefore 2 p))
    (.ahead n p) fun _ _ => NesConsole.readZeroPageWord pointer := by
  refine .bind (.read pointer.toUInt16) fun low => ?_
  refine .bind (.read (pointer + 1).toUInt16) fun high => ?_
  exact .pure (wordOf low high)

theorem readPageWord (pointer : UInt16) : Built S N (.ahead n (placeBefore 2 p))
    (.ahead n p) fun _ _ => NesConsole.readPageWord pointer := by
  refine .bind (.read pointer) fun low => ?_
  refine .bind (.read (wordOf (lowByte pointer + 1) (highByte pointer))) fun high => ?_
  exact .pure (wordOf low high)

theorem advance (h : n < N) :
    Built S N (.ahead n p) (.ahead (n + 1) p) fun _ _ => NesConsole.advance :=
  .take h (.of_rfl (fun _ => ⟨rfl, rfl⟩) fun _ _ => rfl) fun _ => .one rfl rfl rfl rfl

theorem fetchByte (h : n < N) : Built S N (.ahead n (placeBefore 1 p)) (.ahead (n + 1) p)
    fun _ _ => NesConsole.fetchByte := by
  refine .bind (.look fun _ _ => rfl) fun pc => ?_
  refine .bind (.read pc) fun byte => ?_
  refine .bind (.advance h) fun _ => ?_
  exact .pure byte

theorem fetchWord (h : n + 2 ≤ N) : Built S N (.ahead n (placeBefore 2 p))
    (.ahead (n + 2) p) fun _ _ => NesConsole.fetchWord := by
  refine .bind (.fetchByte (Nat.lt_of_succ_le (Nat.le_of_succ_le h))) fun low => ?_
  refine .bind (.fetchByte h) fun high => ?_
  exact .pure (wordOf low high)

theorem resolve {mode : AddressingMode} (h : n + mode.operandLength ≤ N) :
    Built S N (.ahead n (placeBefore mode.reads p)) (.ahead (n + mode.operandLength) p)
      fun _ _ => mode.resolve := by
  have hx : Hides Registers.x := fun _ _ => rfl
  have hy : Hides Registers.y := fun _ _ => rfl
  cases mode with
  | implied | accumulator => exact .pure _
  | immediate =>
    refine .bind (.look fun _ _ => rfl) fun pc => ?_
    exact .bind (.advance h) fun _ => .pure _
  | relative | zeroPage => exact .bind (.fetchByte h) fun _ => .pure _
  | zeroPageX =>
    refine .bind (.fetchByte h) fun base => ?_
    exact .bind (.look hx) fun _ => .pure _
  | zeroPageY =>
    refine .bind (.fetchByte h) fun base => ?_
    exact .bind (.look hy) fun _ => .pure _
  | absolute => exact .bind (.fetchWord h) fun _ => .pure _
  | absoluteX =>
    refine .bind (.fetchWord h) fun base => ?_
    exact .bind (.look hx) fun _ => .pure _
  | absoluteY =>
    refine .bind (.fetchWord h) fun base => ?_
    exact .bind (.look hy) fun _ => .pure _
  | indirect =>
    refine .bind (.fetchWord h) fun pointer => ?_
    exact .bind (.readPageWord pointer) fun _ => .pure _
  | indexedIndirect =>
    refine .bind (.fetchByte h) fun base => ?_
    refine .bind (.look hx) fun x => ?_
    exact .bind (.readZeroPageWord _) fun _ => .pure _
  | indirectIndexed =>
    refine .bind (.fetchByte h) fun pointer => ?_
    refine .bind (.readZeroPageWord pointer) fun base => ?_
    exact .bind (.look hy) fun _ => .pure _

theorem load (operand : Operand) :
    Built S N (.ahead n none) (.ahead n none) fun _ _ => operand.load := by
  cases operand with
  | memory address => exact .read (p := none) address
  | implied | accumulator | displacement => exact .look fun _ _ => rfl

theorem store {operand : Operand} (ha : ∀ address, operand = .memory address → S address)
    (data : UInt8) : Built S N (.ahead n none) .last fun _ _ => operand.store data := by
  cases operand with
  | memory address => exact .close rfl (.write (p := none) data (ha address rfl))
  | implied | accumulator | displacement =>
    exact .change rfl (g := fun r => { r with a := data })
      (.of_rfl (fun _ => ⟨rfl, rfl⟩) fun _ _ => rfl)

theorem jump (address : UInt16) :
    Built S N (.ahead n none) .last fun _ _ => NesConsole.jump address :=
  .change rfl (.of_rfl (fun _ => ⟨rfl, rfl⟩) fun _ _ => rfl)

theorem pull : Built S N (.ahead n (placeBefore 1 p)) (.ahead n p)
    fun _ _ => NesConsole.pull := by
  refine .bind (.rest ?_ fun _ => .none rfl rfl rfl rfl) fun _ => ?_
  · exact .of_rfl (fun _ => ⟨rfl, rfl⟩) fun _ _ => rfl
  · exact .bind (.look fun _ _ => rfl) fun _ => .read _

theorem pullWord : Built S N (.ahead n (placeBefore 2 p)) (.ahead n p)
    fun _ _ => NesConsole.pullWord := by
  refine .bind .pull fun low => ?_
  exact .bind .pull fun high => .pure (wordOf low high)

theorem branch (op : BranchOp) (operand : Operand) :
    Built S N (.ahead n none) .last fun _ _ => op.run operand := by
  cases operand with
  | displacement offset =>
    -- The flags are looked at for the condition alone.
    have hlook : Hides fun r : Registers => (op.holds r.p, r.pc) := fun d r =>
      Prod.ext (op.hides_holds d r) rfl
    refine .bind (x := fun _ _ => Wired.look fun r => (op.holds r.p, r.pc)) (.look hlook)
      (f := fun p _ _ => if p.1 then do
          NesConsole.jump (branchTarget p.2 offset)
          return if samePage p.2 (branchTarget p.2 offset) then 1 else 2
        else return 0) fun p => ?_
    cases p.1 with
    | true => exact .bind (.jump _) fun _ => .pure _
    | false => exact .close rfl (.pure 0)
  | implied | accumulator | memory =>
    exact .close rfl (.bind (x := fun _ _ => Wired.look fun _ => ()) (.look fun _ _ => rfl)
      (f := fun _ _ _ => Pure.pure 0) fun _ => .pure 0)

section
variable (hS : ∀ sp, S (stackAddress sp))
include hS

theorem push (data : UInt8) : Built S N (.ahead n (placeBefore 1 p)) (.ahead n p)
    fun _ _ => NesConsole.push data := by
  refine .bind (.look fun _ _ => rfl) fun sp => ?_
  refine .bind (.write data (hS sp)) fun _ => .rest ?_ fun _ => .none rfl rfl rfl rfl
  exact .of_rfl (fun _ => ⟨rfl, rfl⟩) fun _ _ => rfl

theorem pushWord (w : UInt16) : Built S N (.ahead n (placeBefore 2 p)) (.ahead n p)
    fun _ _ => NesConsole.pushWord w :=
  .bind (.push hS (highByte w)) fun _ => .push hS (lowByte w)

/-- What an interrupt and a software break have in common. -/
theorem frame (back vector : UInt16) {flags : Registers → UInt8}
    (h : flags = (·.p.pushedBySoftware) ∨ flags = (·.p.pushedByInterrupt)) :
    Built S N (.ahead n (some 2)) .last (fun _ _ => do
      NesConsole.pushWord back
      NesConsole.push (← Wired.look flags)
      Wired.update fun r => { r with p := { r.p with interruptDisable := true } }
      NesConsole.jump (← NesConsole.readWord vector)) := by
  refine .bind (.pushWord hS (p := some 0) back) fun _ => ?_
  refine .congr (y := fun _ _ => NesConsole.pushFlags flags >>= fun _ =>
    Wired.update (fun r => { r with p := { r.p with interruptDisable := true } }) >>= fun _ =>
      NesConsole.readWord vector >>= NesConsole.jump) (fun _ _ => (bind_assoc ..).symm) ?_
  refine .bind (.pushFlags h hS) fun _ => ?_
  refine .bind (.rest .mask fun _ => .none rfl rfl rfl rfl) fun _ => ?_
  exact .bind (.readWord (p := none) vector) fun _ => .jump _

theorem enterInterrupt (vector : UInt16) :
    Built S N (.ahead n (some 2)) .last fun _ _ => NesConsole.enterInterrupt vector :=
  .bind (.look fun _ _ => rfl) fun pc => .frame hS pc vector (.inr rfl)

theorem flow (op : FlowOp) (operand : Operand) :
    Built S N (.ahead n op.flagsPlace) .last fun _ _ => op.run operand := by
  have hload (v : UInt8) : Sound (Registers.loadA v) :=
    .of_rfl (fun _ => ⟨rfl, rfl⟩) fun _ _ => rfl
  cases op with
  | pha =>
    refine .bind (.look fun _ _ => rfl) fun a => ?_
    exact .close rfl (.push hS (p := none) a)
  | php => exact .close rfl (.pushFlags (.inl rfl) hS)
  | pla => exact .bind (.pull (p := none)) fun v => .change rfl (hload v)
  | plp => exact .close rfl .pullFlags
  | jmp => exact .bind (.look operand.hides_target) fun _ => .jump _
  | jsr =>
    refine .bind (.look fun _ _ => rfl) fun pc => ?_
    refine .bind (.pushWord hS (p := none) (pc - 1)) fun _ => ?_
    exact .bind (.look operand.hides_target) fun _ => .jump _
  | rts => exact .bind (.pullWord (p := none)) fun _ => .jump _
  | brk => exact .bind (.look fun _ _ => rfl) fun pc => .frame hS (pc + 1) irqVector (.inl rfl)
  | rti =>
    refine .congr (y := fun _ _ => NesConsole.pullFlags >>= fun _ =>
      NesConsole.pullWord >>= NesConsole.jump) (fun _ _ => (bind_assoc ..).symm) ?_
    refine .bind .pullFlags fun _ => ?_
    exact .bind (.pullWord (p := none)) fun _ => .jump _

/-- An operation writes on the stack and, if it stores, at its operand. -/
theorem operation (op : Operation) {operand : Operand}
    (ha : op.stores = true → ∀ address, operand = .memory address → S address) :
    Built S N (.ahead n op.flagsPlace) .last fun _ _ => op.run operand := by
  cases op with
  | read op =>
    refine .bind (.load operand) fun v => ?_
    exact .bind (.change rfl (.read op v)) fun _ => .pure 0
  | store op =>
    refine .bind (.look op.hides_source) fun v => ?_
    exact .bind (.store (ha rfl) v) fun _ => .pure 0
  | modify op =>
    -- The registers that a shift leaves are put back whole.
    have hshift (β : Type) [Bus β] : ((Operation.modify op).run operand : Execution β Nat) =
        operand.load >>= fun v => Wired.look (fun r => (op.change v r).1) >>= fun changed =>
          Wired.update (fun r => (op.change v r).2) >>= fun _ => operand.store changed >>= fun _ =>
            Wired.update (fun r => op.finish changed r) >>= fun _ => Pure.pure 0 :=
      congrArg (operand.load >>= ·) (funext fun _ => rfl)
    refine .congr hshift ?_
    refine .bind (.load operand) fun v => .bind (.look (op.hides_change v)) fun changed => ?_
    refine .bind (.rest (.change op v) (op.passed_change v)) fun _ => ?_
    refine .bind (.store (ha rfl) changed) fun _ => ?_
    exact .bind (.change rfl (.finish op changed)) fun _ => .pure 0
  | register op => exact .bind (.change rfl (.register op)) fun _ => .pure 0
  | branch op => exact .branch op operand
  | flow op => exact .bind (.flow hS op operand) fun _ => .pure 0

end

/-- What an instruction does once its opcode has been taken. -/
theorem resolved {i : Instruction} (h : n + i.mode.operandLength ≤ N)
    (hall : ∀ address, S address) :
    Built S N (.ahead n (placeBefore i.mode.reads i.operation.flagsPlace)) .last fun _ _ => do
      let r ← i.mode.resolve
      let extra ← i.operation.run r.operand
      return if r.crossed && i.operation.pagePenalty then extra + 1 else extra := by
  refine .bind (.resolve h) fun r => ?_
  exact .bind (.operation (fun _ => hall _) i.operation fun _ address _ => hall address)
    fun _ => .pure _

theorem instruction (i : Instruction) : Built (fun _ => True) (1 + i.mode.operandLength)
    (.ahead 0 (placeBefore i.mode.reads i.operation.flagsPlace)) .last fun _ _ => i.run := by
  refine .bind (.take (Nat.lt_add_right _ Nat.one_pos) .opcode fun _ => .one rfl rfl rfl rfl)
    fun _ => ?_
  exact .resolved (Nat.le_refl _) fun _ => trivial

end Built

/-! ### At an instruction -/

namespace Cpu
variable {β : Type} [CpuBus β]

def carryOut (i : Instruction) : EStateM CpuError (Wired Cpu β) Unit := do
  Wired.update fun c => { c with remaining := i.cycles }
  let extra ← access (onRegisters i.run)
  Wired.update fun c => { c with remaining := c.remaining + extra }

def takeUp (i : Instruction) : EStateM CpuError (Wired Cpu β) Unit := do
  if CpuBus.tracing (← get).bus then
    report (.executing (← access traceLine))
  carryOut i

end Cpu

namespace Leads
variable {β : Type} [CpuBus β] {P : Wired Cpu β → Prop}

section
variable {E : BusError → Wired Cpu β → Prop}
  (hread : ∀ address, Leads P (Wired.read address) (fun _ => P) E)
include hread

theorem readBytes (n : Nat) (address : UInt16) :
    Leads P (Cpu.readBytes address n) (fun _ => P) E := by
  induction n generalizing address with
  | zero => exact fun _ hw => hw
  | succ n ih => exact .bind (hread address) fun _ => .bind (ih _) fun _ _ hw => hw

theorem traceLine : Leads P Cpu.traceLine (fun _ => P) E := by
  refine .bind (M := fun _ => P) (fun _ hw => hw) fun c => .bind (hread _) fun opcode => ?_
  exact .bind (readBytes hread _ _) fun _ _ hw => hw

end

variable {Q : Unit → Wired Cpu β → Prop} {E : CpuError → Wired Cpu β → Prop} {i : Instruction}

/-- An instruction is reported, if it is, before it runs. -/
theorem takeUp (hline : Leads P (Cpu.access Cpu.traceLine) (fun _ => P) E)
    (hreport : ∀ line w, P w → P { w with bus := CpuBus.report (.executing line) w.bus })
    (hrun : Leads P (Cpu.carryOut i) Q E) : Leads P (Cpu.takeUp i) Q E := by
  refine .bind_get fun w => .ite ?_ hrun
  exact .bind hline fun line => .bind (M := fun _ => P) (hreport line) fun _ => hrun

theorem executeNext (hread : ∀ address, Leads P (Cpu.access (Wired.read address)) (fun _ => P) E)
    (hillegal : ∀ opcode address w, P w → E (.illegalOpcode opcode address) w)
    (htake : ∀ opcode i, Instruction.decode? opcode = some i → Leads P (Cpu.takeUp i) Q E) :
    Leads P Cpu.executeNext Q E := by
  refine .bind (M := fun _ => P) (fun _ hw => hw) fun address => .bind (hread address) ?_
  intro opcode
  cases hi : Instruction.decode? opcode with
  | none => exact hillegal opcode address
  | some i => exact htake opcode i hi

end Leads
end NesConsole
