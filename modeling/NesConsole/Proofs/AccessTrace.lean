import Mathlib.Logic.Function.Basic
import NesConsole.FlatMemory
import NesConsole.Proofs.StepRule

/-! The accesses that an instruction makes on a flat memory of 64 KiB: each of them, in order, with
its byte. They are read off the registers and the memory before the instruction, and the history of
a processor cycle that runs it is this list and no more. -/
namespace NesConsole

def FlatMemory.content (m : FlatMemory 0x10000) (address : UInt16) : UInt8 := m.get address.toNat

def readsAt (mem : UInt16 → UInt8) (addresses : List UInt16) : List Access :=
  addresses.map fun address => .read address (mem address)

def wordAt (mem : UInt16 → UInt8) (address : UInt16) : UInt16 :=
  wordOf (mem address) (mem (address + 1))

def nextOnPage (pointer : UInt16) : UInt16 := wordOf (lowByte pointer + 1) (highByte pointer)

def stackCell (sp : UInt8) : UInt16 := 0x0100 ||| sp.toUInt16

namespace AddressingMode
variable (mem : UInt16 → UInt8) (r : Registers)

def operandBytes (pc : UInt16) : AddressingMode → List UInt16
  | .implied | .accumulator | .immediate => []
  | .absolute | .absoluteX | .absoluteY | .indirect => [pc + 1, pc + 2]
  | _ => [pc + 1]

def pointerBytes : AddressingMode → List UInt16
  | .indirect =>
    let pointer := wordAt mem (r.pc + 1)
    [pointer, nextOnPage pointer]
  | .indexedIndirect =>
    let pointer := mem (r.pc + 1) + r.x
    [pointer.toUInt16, (pointer + 1).toUInt16]
  | .indirectIndexed =>
    let pointer := mem (r.pc + 1)
    [pointer.toUInt16, (pointer + 1).toUInt16]
  | _ => []

def effective : AddressingMode → UInt16
  | .immediate => r.pc + 1
  | .zeroPage => (mem (r.pc + 1)).toUInt16
  | .zeroPageX => (mem (r.pc + 1) + r.x).toUInt16
  | .zeroPageY => (mem (r.pc + 1) + r.y).toUInt16
  | .absolute => wordAt mem (r.pc + 1)
  | .absoluteX => wordAt mem (r.pc + 1) + r.x.toUInt16
  | .absoluteY => wordAt mem (r.pc + 1) + r.y.toUInt16
  | .indirect =>
    let pointer := wordAt mem (r.pc + 1)
    wordOf (mem pointer) (mem (nextOnPage pointer))
  | .indexedIndirect =>
    let pointer := mem (r.pc + 1) + r.x
    wordOf (mem pointer.toUInt16) (mem (pointer + 1).toUInt16)
  | .indirectIndexed =>
    let pointer := mem (r.pc + 1)
    wordOf (mem pointer.toUInt16) (mem (pointer + 1).toUInt16) + r.y.toUInt16
  | .implied | .accumulator | .relative => 0

def inMemory : AddressingMode → Bool
  | .implied | .accumulator | .relative => false
  | _ => true

end AddressingMode

/-- Stack accesses and vector reads, for an opcode at the program counter of `r`. -/
def FlowOp.accesses (mem : UInt16 → UInt8) (r : Registers) : FlowOp → List Access
  | .pha => [.write (stackCell r.sp) r.a]
  | .php => [.write (stackCell r.sp) r.p.pushedBySoftware]
  | .pla | .plp => readsAt mem [stackCell (r.sp + 1)]
  | .jmp => []
  | .jsr =>
    [.write (stackCell r.sp) (highByte (r.pc + 2)),
      .write (stackCell (r.sp - 1)) (lowByte (r.pc + 2))]
  | .rts => readsAt mem [stackCell (r.sp + 1), stackCell (r.sp + 2)]
  | .brk =>
    [.write (stackCell r.sp) (highByte (r.pc + 2)),
      .write (stackCell (r.sp - 1)) (lowByte (r.pc + 2)),
      .write (stackCell (r.sp - 2)) r.p.pushedBySoftware] ++ readsAt mem [0xFFFE, 0xFFFF]
  | .rti => readsAt mem [stackCell (r.sp + 1), stackCell (r.sp + 2), stackCell (r.sp + 3)]

def Instruction.operandAccesses (i : Instruction) (mem : UInt16 → UInt8) (r : Registers) :
    List Access :=
  let address := i.mode.effective mem r
  match i.operation with
  | .read _ => [.read address (mem address)]
  | .store op => [.write address (op.source r)]
  | .modify op =>
    if i.mode = .accumulator then []
    else [.read address (mem address), .write address (op.change (mem address) r).1]
  | .register _ | .branch _ => []
  | .flow op => op.accesses mem r

/-- Every access of an instruction whose opcode is at the program counter. -/
def Instruction.accesses (i : Instruction) (mem : UInt16 → UInt8) (r : Registers) : List Access :=
  readsAt mem (r.pc :: (i.mode.operandBytes r.pc ++ i.mode.pointerBytes mem r)) ++
    i.operandAccesses mem r

/-- Operands are where their operations look for them, and the two operations that push a return
address have operands of one length. -/
def Instruction.formed (i : Instruction) : Bool :=
  match i.operation with
  | .read _ | .store _ => i.mode.inMemory
  | .modify _ => i.mode.inMemory || i.mode == .accumulator
  | .flow .jsr => i.mode == .absolute
  | .flow .brk => i.mode == .implied
  | _ => true

theorem Instruction.decode?_formed {opcode : UInt8} {i : Instruction}
    (h : decode? opcode = some i) : i.formed = true :=
  of_decode? (by decide) h

theorem stackAddress_eq_stackCell (sp : UInt8) : stackAddress sp = stackCell sp := by
  have hsp := sp.toNat_lt
  apply UInt16.toNat_inj.1
  rw [stackAddress, toNat_wordOf, stackCell, UInt16.toNat_or, UInt8.toNat_toUInt16]
  exact Nat.two_pow_add_eq_or_of_lt (i := 8) hsp 1

namespace FlatMemory

theorem ofNat_toNat_mod (address : UInt16) :
    UInt16.ofNat (address.toNat % 0x10000) = address := by
  rw [Nat.mod_eq_of_lt address.toNat_lt, UInt16.ofNat_toNat]

theorem holes_of_inHole {m : FlatMemory 0x10000} {address : UInt16}
    (h : m.inHole address = true) : m.holes ≠ [] := by
  intro hnone
  simp [inHole, hnone] at h

theorem content_blank : (blank : FlatMemory 0x10000).content = fun _ => 0 := by
  funext address
  simp [content, get, blank, address.toNat_lt]

theorem content_set (m : FlatMemory 0x10000) (address : UInt16) (data : UInt8) :
    (m.set address.toNat data).content = Function.update m.content address data := by
  funext k
  have ha := Nat.mod_eq_of_lt address.toNat_lt
  have hk := Nat.mod_eq_of_lt k.toNat_lt
  have hlt := k.toNat_lt
  by_cases h : k = address
  · subst h
    simp [content, set, get, hk, hlt]
  · have hne : address.toNat ≠ k.toNat := fun he => h (UInt16.toNat_inj.1 he.symm)
    rw [Function.update_of_ne h]
    simp [content, set, get, ha, hk, Vector.getElem?_setIfInBounds_ne hne]

end FlatMemory

/-! ### Programs and the accesses they make -/

section
variable {ε κ κ' α δ : Type} {mem mem' mem'' : UInt16 → UInt8}

/-- From chip `c` over memory `mem`, success answers `a` and leaves `c'` over `mem'`, with the
accesses `l` behind it. Only a hole refuses. -/
def Logs (x : EStateM ε (Wired κ (FlatMemory 0x10000)) α) (c : κ) (mem : UInt16 → UInt8) (a : α)
    (c' : κ) (mem' : UInt16 → UInt8) (l : List Access) : Prop :=
  ∀ b : FlatMemory 0x10000, b.content = mem → match x ⟨c, b⟩ with
    | .ok a' w => a' = a ∧ w.chip = c' ∧ w.bus.content = mem' ∧ w.bus.holes = b.holes ∧
        w.bus.history = l.reverse ++ b.history
    | .error _ _ => b.holes ≠ []

namespace Logs
variable {c c' c'' : κ} {a : α} {l l' : List Access}

theorem pure : Logs (ε := ε) (Pure.pure a) c mem a c mem [] := fun _ hb => ⟨rfl, rfl, hb, rfl, rfl⟩

theorem bind {x : EStateM ε (Wired κ (FlatMemory 0x10000)) δ}
    {y : δ → EStateM ε (Wired κ (FlatMemory 0x10000)) α} {d : δ} (hx : Logs x c mem d c' mem' l)
    (hy : Logs (y d) c' mem' a c'' mem'' l') : Logs (x >>= y) c mem a c'' mem'' (l ++ l') := by
  intro b hb
  have h := hx b hb
  cases hr : x ⟨c, b⟩ with
  | error e w =>
    rw [bind_error hr]
    rwa [hr] at h
  | ok d' w =>
    rw [hr] at h
    obtain ⟨rfl, hc, hm, hholes, hlog⟩ := h
    obtain ⟨c₁, b₁⟩ := w
    subst hc
    have h' := hy b₁ hm
    rw [bind_ok hr]
    cases hr' : y d' ⟨c₁, b₁⟩ with
    | error e w =>
      rw [hr'] at h'
      exact hholes ▸ h'
    | ok a' w =>
      rw [hr'] at h'
      obtain ⟨ha, hc', hm', hholes', hlog'⟩ := h'
      refine ⟨ha, hc', hm', hholes'.trans hholes, ?_⟩
      rw [hlog', hlog, List.reverse_append, List.append_assoc]

theorem look (g : κ → α) : Logs (ε := ε) (Wired.look g) c mem (g c) c mem [] :=
  fun _ hb => ⟨rfl, rfl, hb, rfl, rfl⟩

theorem update (g : κ → κ) : Logs (ε := ε) (Wired.update g) c mem () (g c) mem [] :=
  fun _ hb => ⟨rfl, rfl, hb, rfl, rfl⟩

theorem onPart {get : κ → κ'} {put : κ' → κ → κ} {d : κ'}
    {x : EStateM ε (Wired κ' (FlatMemory 0x10000)) α} (h : Logs x (get c) mem a d mem' l) :
    Logs (Wired.onPart get put x) c mem a (put d c) mem' l := by
  intro b hb
  have hr := h b hb
  dsimp only [Wired.onPart]
  cases hx : x ⟨get c, b⟩ <;> rw [hx] at hr
  case ok => exact ⟨hr.1, congrArg (put · c) hr.2.1, hr.2.2⟩
  case error => exact hr

theorem read (address : UInt16) :
    Logs (Wired.read address) c mem (mem address) c mem [.read address (mem address)] := by
  rintro b rfl
  dsimp only [Wired.read, Wired.onBus, Bus.read]
  rw [FlatMemory.ofNat_toNat_mod]
  cases hhole : b.inHole address with
  | true => exact FlatMemory.holes_of_inHole hhole
  | false => exact ⟨rfl, rfl, rfl, rfl, rfl⟩

theorem write (address : UInt16) (data : UInt8) :
    Logs (Wired.write address data) c mem () c (Function.update mem address data)
      [.write address data] := by
  rintro b rfl
  dsimp only [Wired.write, Wired.onBus, Bus.write]
  rw [FlatMemory.ofNat_toNat_mod]
  cases hhole : b.inHole address with
  | true => exact FlatMemory.holes_of_inHole hhole
  | false => exact ⟨rfl, rfl, b.content_set address data, rfl, rfl⟩

theorem access {x : EStateM BusError (Wired Cpu (FlatMemory 0x10000)) α} {c c' : Cpu}
    (h : Logs x c mem a c' mem' l) : Logs (Cpu.access x) c mem a c' mem' l := by
  intro b hb
  have hr := h b hb
  unfold Cpu.access EStateM.adaptExcept
  cases hx : x ⟨c, b⟩ <;> rw [hx] at hr <;> exact hr

/-- Without holes it succeeds. -/
theorem ok {x : EStateM ε (Wired κ (FlatMemory 0x10000)) α} {b : FlatMemory 0x10000}
    (h : Logs x c b.content a c' mem' l) (hholes : b.holes = []) :
    ∃ b', x ⟨c, b⟩ = .ok a ⟨c', b'⟩ ∧ b'.content = mem' ∧ b'.holes = [] := by
  have hr := h b rfl
  cases hx : x ⟨c, b⟩ with
  | error e w =>
    rw [hx] at hr
    exact absurd hholes hr
  | ok a' w =>
    rw [hx] at hr
    obtain ⟨rfl, rfl, hmem, hholes', -⟩ := hr
    exact ⟨w.bus, rfl, hmem, hholes'.trans hholes⟩

end Logs
end

/-! ### The processor

Programs that are built alike make different accesses, so each has a trace of its own. -/

section
variable {mem mem' : UInt16 → UInt8} {r : Registers}

namespace Logs
variable {κ : Type} {c : κ}

theorem readWord (address : UInt16) :
    Logs (NesConsole.readWord address) c mem (wordAt mem address) c mem
      (readsAt mem [address, address + 1]) :=
  (read address).bind ((read _).bind .pure)

theorem readZeroPageWord (pointer : UInt8) :
    Logs (NesConsole.readZeroPageWord pointer) c mem
      (wordOf (mem pointer.toUInt16) (mem (pointer + 1).toUInt16)) c mem
      (readsAt mem [pointer.toUInt16, (pointer + 1).toUInt16]) :=
  (read _).bind ((read _).bind .pure)

theorem readPageWord (pointer : UInt16) :
    Logs (NesConsole.readPageWord pointer) c mem
      (wordOf (mem pointer) (mem (nextOnPage pointer))) c mem
      (readsAt mem [pointer, nextOnPage pointer]) :=
  (read pointer).bind ((read _).bind .pure)

theorem fetchByte :
    Logs NesConsole.fetchByte r mem (mem r.pc) { r with pc := r.pc + 1 } mem
      (readsAt mem [r.pc]) :=
  (look _).bind ((read r.pc).bind ((update _).bind .pure))

theorem fetchWord :
    Logs NesConsole.fetchWord r mem (wordAt mem r.pc) { r with pc := r.pc + 2 } mem
      (readsAt mem [r.pc, r.pc + 1]) := by
  have h : Logs NesConsole.fetchWord r mem (wordAt mem r.pc) { r with pc := r.pc + 1 + 1 } mem
      (readsAt mem [r.pc, r.pc + 1]) := .bind fetchByte (.bind fetchByte .pure)
  rwa [UInt16.add_assoc] at h

theorem push (data : UInt8) :
    Logs (NesConsole.push data) r mem () { r with sp := r.sp - 1 }
      (Function.update mem (stackCell r.sp) data) [.write (stackCell r.sp) data] := by
  rw [← stackAddress_eq_stackCell]
  exact (look _).bind ((write _ data).bind (update _))

theorem pull :
    Logs NesConsole.pull r mem (mem (stackCell (r.sp + 1))) { r with sp := r.sp + 1 } mem
      (readsAt mem [stackCell (r.sp + 1)]) := by
  rw [← stackAddress_eq_stackCell]
  exact (update _).bind ((look _).bind (read _))

theorem pushWord (w : UInt16) :
    Logs (NesConsole.pushWord w) r mem () { r with sp := r.sp - 2 }
      (Function.update (Function.update mem (stackCell r.sp) (highByte w)) (stackCell (r.sp - 1))
        (lowByte w))
      [.write (stackCell r.sp) (highByte w), .write (stackCell (r.sp - 1)) (lowByte w)] := by
  have h : Logs (NesConsole.pushWord w) r mem () { r with sp := r.sp - 1 - 1 } _ _ :=
    .bind (push (highByte w)) (push (lowByte w))
  have hsp : r.sp - 1 - 1 = r.sp - 2 := by grind
  rwa [hsp] at h

theorem pullWord :
    Logs NesConsole.pullWord r mem
      (wordOf (mem (stackCell (r.sp + 1))) (mem (stackCell (r.sp + 2)))) { r with sp := r.sp + 2 }
      mem (readsAt mem [stackCell (r.sp + 1), stackCell (r.sp + 2)]) := by
  have h : Logs NesConsole.pullWord r mem
      (wordOf (mem (stackCell (r.sp + 1))) (mem (stackCell (r.sp + 1 + 1))))
      { r with sp := r.sp + 1 + 1 } mem
      (readsAt mem [stackCell (r.sp + 1), stackCell (r.sp + 1 + 1)]) :=
    .bind pull (.bind pull .pure)
  rwa [UInt8.add_assoc] at h

end Logs

namespace AddressingMode

def resolved (mem : UInt16 → UInt8) (r : Registers) : AddressingMode → Resolved
  | .implied => ⟨.implied, false⟩
  | .accumulator => ⟨.accumulator, false⟩
  | .relative => ⟨.displacement (mem (r.pc + 1)), false⟩
  | .absoluteX => .indexed (wordAt mem (r.pc + 1)) r.x
  | .absoluteY => .indexed (wordAt mem (r.pc + 1)) r.y
  | .indirectIndexed =>
    let pointer := mem (r.pc + 1)
    .indexed (wordOf (mem pointer.toUInt16) (mem (pointer + 1).toUInt16)) r.y
  | mode => ⟨.memory (mode.effective mem r), false⟩

theorem resolved_operand {mode : AddressingMode} (h : mode.inMemory = true) :
    (mode.resolved mem r).operand = .memory (mode.effective mem r) := by
  cases mode <;> first | rfl | cases h

def past (r : Registers) (mode : AddressingMode) : Registers :=
  { r with pc := r.pc + 1 + UInt16.ofNat mode.operandLength }

theorem logs_resolve (mode : AddressingMode) :
    Logs mode.resolve { r with pc := r.pc + 1 } mem (mode.resolved mem r) (mode.past r) mem
      (readsAt mem (mode.operandBytes r.pc ++ mode.pointerBytes mem r)) := by
  have hword : Logs fetchWord { r with pc := r.pc + 1 } mem (wordAt mem (r.pc + 1))
      { r with pc := r.pc + 1 + 2 } mem (readsAt mem [r.pc + 1, r.pc + 2]) := by
    have h : Logs fetchWord { r with pc := r.pc + 1 } mem (wordAt mem (r.pc + 1)) _ _
        (readsAt mem [r.pc + 1, r.pc + 1 + 1]) := .fetchWord
    rwa [show r.pc + 1 + 1 = r.pc + 2 from UInt16.add_assoc _ _ _] at h
  cases mode with
  | implied | accumulator =>
    have hpc : r.pc + 1 + UInt16.ofNat 0 = r.pc + 1 := UInt16.add_zero _
    rw [past, operandLength, hpc]
    exact .pure
  | immediate => exact .bind (.look _) (.bind (.update _) .pure)
  | relative | zeroPage => exact .bind .fetchByte .pure
  | zeroPageX | zeroPageY => exact .bind .fetchByte (.bind (.look _) .pure)
  | absolute => exact .bind hword .pure
  | absoluteX | absoluteY => exact .bind hword (.bind (.look _) .pure)
  | indirect => exact .bind hword (.bind (.readPageWord _) .pure)
  | indexedIndirect =>
    exact .bind .fetchByte (.bind (.look _) (.bind (.readZeroPageWord _) .pure))
  | indirectIndexed => exact .bind .fetchByte (.bind (.readZeroPageWord _) (.bind (.look _) .pure))

end AddressingMode

/-- The accesses of a program, whatever it leaves behind. -/
def Makes {ε κ α : Type} (x : EStateM ε (Wired κ (FlatMemory 0x10000)) α) (c : κ)
    (mem : UInt16 → UInt8) (l : List Access) : Prop :=
  ∃ a c' mem', Logs x c mem a c' mem' l

theorem Logs.makes {ε κ α : Type} {x : EStateM ε (Wired κ (FlatMemory 0x10000)) α} {c c' : κ}
    {a : α} {l : List Access} (h : Logs x c mem a c' mem' l) : Makes x c mem l :=
  ⟨a, c', mem', h⟩

theorem Logs.then {ε κ α δ : Type} {x : EStateM ε (Wired κ (FlatMemory 0x10000)) δ}
    {y : δ → EStateM ε (Wired κ (FlatMemory 0x10000)) α} {c c' : κ} {d : δ} {l l' : List Access}
    (hx : Logs x c mem d c' mem' l) (hy : Makes (y d) c' mem' l') :
    Makes (x >>= y) c mem (l ++ l') :=
  have ⟨_, _, _, h⟩ := hy
  (hx.bind h).makes

theorem Makes.then_pure {ε κ α δ : Type} {x : EStateM ε (Wired κ (FlatMemory 0x10000)) δ}
    {f : δ → α} {c : κ} {l : List Access} (h : Makes x c mem l) :
    Makes (x >>= fun d => pure (f d)) c mem l := by
  obtain ⟨d, c', mem', h⟩ := h
  have h' : Logs (x >>= fun d => pure (f d)) c mem (f d) c' mem' (l ++ []) := h.bind .pure
  rw [List.append_nil] at h'
  exact h'.makes

/-- A vector is not on the stack. -/
theorem update_stackCell {address : UInt16} (h : 0x200 ≤ address.toNat) (sp data : UInt8) :
    Function.update mem (stackCell sp) data address = mem address := by
  have hsp := sp.toNat_lt
  refine Function.update_of_ne (fun he => ?_) _ _
  rw [he, ← stackAddress_eq_stackCell, stackAddress, toNat_wordOf] at h
  change 0x200 ≤ 1 * 256 + sp.toNat at h
  omega

theorem readsAt_update_stackCell (sp data : UInt8) :
    readsAt (Function.update mem (stackCell sp) data) [0xFFFE, 0xFFFF] =
      readsAt mem [0xFFFE, 0xFFFF] := by
  simp [readsAt, update_stackCell]

def Registers.started (r : Registers) (pc : UInt16) : Registers :=
  { r with pc := pc, p := { r.p with unused := true } }

theorem FlowOp.makes (op : FlowOp) (operand : Operand) (pc : UInt16)
    (hjsr : op = .jsr → pc = r.pc + 3) (hbrk : op = .brk → pc = r.pc + 1) :
    Makes (op.run operand) (r.started pc) mem (op.accesses mem r) := by
  cases op with
  | pha | php => exact (Logs.bind (.look _) (.push _)).makes
  | pla | plp => exact (Logs.bind .pull (.update _)).makes
  | jmp =>
    have h : Logs (FlowOp.run .jmp operand) (r.started pc) mem () _ _ _ :=
      .bind (.look _) (.update _)
    exact h.makes
  | rts => exact (Logs.bind .pullWord (.update _)).makes
  | jsr =>
    have h : Makes (FlowOp.run .jsr operand) (r.started pc) mem _ :=
      Logs.makes (.bind (.look _) (.bind (.pushWord (pc - 1)) (.bind (.look _) (.update _))))
    have hpc : pc - 1 = r.pc + 2 := by grind
    rwa [hpc] at h
  | brk =>
    have h : Makes (FlowOp.run .brk operand) (r.started pc) mem _ :=
      Logs.makes (.bind (.look _) (.bind (.pushWord (pc + 1)) (.bind (.look _) (.bind (.push _)
        (.bind (.update _) (.bind (.readWord irqVector) (.update _)))))))
    have hpc : pc + 1 = r.pc + 2 := by grind
    -- The vector is read over a memory that three pushes have changed, but not there.
    have hvector : ∀ mem : UInt16 → UInt8, readsAt mem [irqVector, irqVector + 1] =
      readsAt mem [0xFFFE, 0xFFFF] := fun _ => rfl
    rw [hpc, hvector, readsAt_update_stackCell, readsAt_update_stackCell,
      readsAt_update_stackCell] at h
    exact h
  | rti =>
    have h : Makes (FlowOp.run .rti operand) (r.started pc) mem
        (readsAt mem [stackCell (r.sp + 1), stackCell (r.sp + 1 + 1), stackCell (r.sp + 1 + 2)]) :=
      Logs.makes (.bind .pull (.bind (.update _) (.bind .pullWord (.update _))))
    have h₁ : r.sp + 1 + 1 = r.sp + 2 := by grind
    have h₂ : r.sp + 1 + 2 = r.sp + 3 := by grind
    rwa [h₁, h₂] at h

theorem ReadOp.makes (op : ReadOp) (address pc : UInt16) :
    Makes (Operation.run (.read op) (.memory address)) (r.started pc) mem
      [.read address (mem address)] :=
  Logs.makes (.bind (.read address) (.bind (.update _) .pure))

theorem StoreOp.makes (op : StoreOp) (address pc : UInt16) :
    Makes (Operation.run (.store op) (.memory address)) (r.started pc) mem
      [.write address (op.source r)] := by
  have h : Makes (Operation.run (.store op) (.memory address)) (r.started pc) mem
      [.write address (op.source (r.started pc))] :=
    Logs.makes (.bind (.look _) (.bind (.write address _) .pure))
  have hsource : op.source (r.started pc) = op.source r := by cases op <;> rfl
  rwa [hsource] at h

theorem ModifyOp.makes (op : ModifyOp) (address pc : UInt16) :
    Makes (Operation.run (.modify op) (.memory address)) (r.started pc) mem
      [.read address (mem address), .write address (op.change (mem address) r).1] := by
  have h : Makes (Operation.run (.modify op) (.memory address)) (r.started pc) mem
      [.read address (mem address),
        .write address (op.change (mem address) (r.started pc)).1] :=
    Logs.makes (.bind (.read address) (.bind (.look _) (.bind (.update _)
      (.bind (.write address _) (.bind (.update _) .pure)))))
  have hchange : (op.change (mem address) (r.started pc)).1 = (op.change (mem address) r).1 := by
    cases op <;> rfl
  rwa [hchange] at h

theorem ModifyOp.makes_accumulator (op : ModifyOp) :
    Makes (Operation.run (.modify op) .accumulator) r mem [] := by
  have hstore (data : UInt8) (r : Registers) :
      Logs (Operand.accumulator.store data) r mem () { r with a := data } mem [] :=
    .update fun r : Registers => { r with a := data }
  exact Logs.makes (.bind (.look _) (.bind (.look _) (.bind (.update _) (.bind (hstore _ _)
    (.bind (.update _) .pure)))))

theorem BranchOp.makes (op : BranchOp) (operand : Operand) :
    Makes (Operation.run (.branch op) operand) r mem [] := by
  have hlook : Logs (ε := BusError) (Wired.look id) r mem r r mem [] := .look id
  cases operand with
  | displacement offset =>
    refine Logs.then (l := []) hlook ?_
    change Makes (if op.holds r.p then _ else _) r mem []
    cases op.holds r.p with
    | true => exact Logs.makes (.bind (.update _) .pure)
    | false => exact Logs.makes .pure
  | _ => exact Logs.makes (.bind hlook .pure)

theorem Instruction.operation_makes {i : Instruction} (hi : i.formed = true) :
    Makes (i.operation.run (i.mode.resolved mem r).operand)
      (r.started (r.pc + 1 + UInt16.ofNat i.mode.operandLength)) mem
      (i.operandAccesses mem r) := by
  obtain ⟨operation, mode, cycles⟩ := i
  cases operation with
  | read op =>
    rw [AddressingMode.resolved_operand hi]
    exact op.makes _ _
  | store op =>
    rw [AddressingMode.resolved_operand hi]
    exact op.makes _ _
  | modify op =>
    by_cases hmode : mode = .accumulator
    · subst hmode
      exact op.makes_accumulator
    · have hmemory : mode.inMemory = true := by simpa [formed, hmode] using hi
      rw [AddressingMode.resolved_operand hmemory]
      simp only [operandAccesses, if_neg hmode]
      exact op.makes _ _
  | register op => exact Logs.makes (.bind (.update _) .pure)
  | branch op => exact op.makes _
  | flow op =>
    refine (op.makes _ _ ?_ ?_).then_pure
    · rintro rfl
      have hmode : mode = .absolute := by simpa [formed] using hi
      subst hmode
      exact UInt16.add_assoc r.pc 1 2
    · rintro rfl
      have hmode : mode = .implied := by simpa [formed] using hi
      subst hmode
      exact UInt16.add_zero (r.pc + 1)

theorem resolved_started (mode : AddressingMode) :
    mode.resolved mem (r.started r.pc) = mode.resolved mem r := by
  cases mode <;> rfl

theorem pointerBytes_started (mode : AddressingMode) :
    mode.pointerBytes mem (r.started r.pc) = mode.pointerBytes mem r := by
  cases mode <;> rfl

/-- An instruction resolves its operand, and answers what its operation does with one cycle more
for a page that was left. -/
theorem Instruction.logs_run {i : Instruction} {extra : Nat} {r' : Registers} {l : List Access}
    (h : Logs (i.operation.run (i.mode.resolved mem r).operand)
      (r.started (r.pc + 1 + UInt16.ofNat i.mode.operandLength)) mem extra r' mem' l) :
    Logs i.run r mem
      (if (i.mode.resolved mem r).crossed && i.operation.pagePenalty then extra + 1 else extra)
      r' mem' (readsAt mem (i.mode.operandBytes r.pc ++ i.mode.pointerBytes mem r) ++ l) := by
  have hresolve : Logs i.mode.resolve (r.started (r.pc + 1)) mem (i.mode.resolved mem r)
      (r.started (r.pc + 1 + UInt16.ofNat i.mode.operandLength)) mem
      (readsAt mem (i.mode.operandBytes r.pc ++ i.mode.pointerBytes mem r)) := by
    have h : Logs i.mode.resolve _ mem (i.mode.resolved mem (r.started r.pc)) _ mem
        (readsAt mem (i.mode.operandBytes r.pc ++ i.mode.pointerBytes mem (r.started r.pc))) :=
      i.mode.logs_resolve
    rwa [resolved_started, pointerBytes_started] at h
  have hrun : Logs i.run r mem _ r' mem' ([] ++ (readsAt mem
      (i.mode.operandBytes r.pc ++ i.mode.pointerBytes mem r) ++ (l ++ []))) :=
    .bind (.update _) (.bind hresolve (.bind h .pure))
  rwa [List.nil_append, List.append_nil] at hrun

theorem Instruction.makes {i : Instruction} (hi : i.formed = true) :
    Makes i.run r mem (readsAt mem (i.mode.operandBytes r.pc ++ i.mode.pointerBytes mem r) ++
      i.operandAccesses mem r) := by
  obtain ⟨extra, r', mem', h⟩ : Makes _ _ mem (i.operandAccesses mem r) := operation_makes hi
  exact (logs_run h).makes

namespace Cpu

theorem logs_executeNext {c : Cpu} {i : Instruction} {extra : Nat} {r' : Registers}
    {l : List Access} (hi : Instruction.decode? (mem c.registers.pc) = some i)
    (h : Logs i.run c.registers mem extra r' mem' l) :
    Logs executeNext c mem () { c with registers := r', remaining := i.cycles + extra } mem'
      (readsAt mem [c.registers.pc] ++ l) := by
  have hrest : Logs (carryOut i) c mem () { c with registers := r', remaining := i.cycles + extra }
      mem' ([] ++ (l ++ [])) := .bind (.update _) (.bind (.access (.onPart h)) (.update _))
  rw [List.nil_append, List.append_nil] at hrest
  refine Logs.bind (l := []) (.look _) (Logs.bind (.access (.read c.registers.pc)) ?_)
  dsimp only
  rw [hi]
  -- This bus traces nothing, so that the opcode is read once.
  exact hrest

theorem executeNext_makes {c : Cpu} {i : Instruction}
    (hi : Instruction.decode? (mem c.registers.pc) = some i) :
    Makes executeNext c mem (i.accesses mem c.registers) := by
  obtain ⟨extra, r, mem', hrun⟩ : Makes i.run c.registers mem _ :=
    Instruction.makes (Instruction.decode?_formed hi)
  have h := logs_executeNext hi hrun
  rw [← List.append_assoc] at h
  exact h.makes

theorem serve_instruction {β : Type} [CpuBus β] {w : Wired Cpu β}
    (h : w.chip.boundary = .instruction) : serve w = executeNext w := by
  rw [serve_apply, h, enter]

theorem bus_of_tick {β : Type} {w w' : Wired Cpu β} (h : tick w = .ok () w') :
    w'.bus = w.bus := by
  obtain ⟨c, bus⟩ := w
  by_cases hroom : c.cycles + 1 < cycleLimit
  · rw [tick, if_pos hroom] at h
    cases h
    rfl
  · rw [tick, if_neg hroom] at h
    cases h

/-- A cycle at an instruction boundary runs the instruction, then counts itself. -/
theorem clock_instruction {β : Type} [CpuBus β] {w : Wired Cpu β}
    (hfault : w.chip.fault = none) (hidle : w.chip.remaining = 0)
    (hboundary : w.chip.boundary = .instruction) : clock w = match executeNext w with
      | .ok _ w => tick w
      | .error error ⟨c, bus⟩ =>
        .error error ⟨{ c with fault := some error }, CpuBus.report (.halted error) bus⟩ := by
  rw [← serve_instruction hboundary, clock_eq_clockBy, clockBy, hfault]
  exact if_pos hidle

theorem fault_of_clock {β : Type} [CpuBus β] {w w' : Wired Cpu β} (h : clock w = .ok () w') :
    w.chip.fault = none := by
  cases hfault : w.chip.fault with
  | none => rfl
  | some error =>
    rw [clock_eq_clockBy, clockBy, hfault] at h
    cases h

/-- On a memory without holes such a cycle succeeds while there is room to count it. -/
theorem clock_succeeds {w : Wired Cpu (FlatMemory 0x10000)} {i : Instruction}
    (hfault : w.chip.fault = none) (hidle : w.chip.remaining = 0)
    (hboundary : w.chip.boundary = .instruction)
    (hi : Instruction.decode? (w.bus.content w.chip.registers.pc) = some i)
    (hholes : w.bus.holes = []) (hroom : w.chip.cycles + 1 < cycleLimit) :
    ∃ w', clock w = .ok () w' := by
  obtain ⟨_, _, _, hlogs⟩ := executeNext_makes hi
  have hrun := hlogs w.bus rfl
  have hview := keepsView_executeNext (f := Cpu.cycles) ⟨fun _ _ => rfl, fun _ _ => rfl⟩ _ w rfl
  rw [clock_instruction hfault hidle hboundary]
  cases hnext : executeNext w with
  | error error w₁ =>
    rw [hnext] at hrun
    exact absurd hholes hrun
  | ok _ w₁ =>
    rw [hnext] at hview
    have hcycles : w₁.chip.cycles = w.chip.cycles := hview
    rw [← hcycles] at hroom
    exact ⟨_, if_pos hroom⟩

/-- A successful cycle that runs the instruction at the program counter makes the accesses of that
instruction, in this order, and no other. -/
theorem clock_history {w w' : Wired Cpu (FlatMemory 0x10000)} {i : Instruction}
    (hidle : w.chip.remaining = 0) (hboundary : w.chip.boundary = .instruction)
    (hi : Instruction.decode? (w.bus.content w.chip.registers.pc) = some i)
    (h : clock w = .ok () w') :
    w'.bus.history = (i.accesses w.bus.content w.chip.registers).reverse ++ w.bus.history := by
  obtain ⟨_, _, _, hlogs⟩ := executeNext_makes hi
  have hrun := hlogs w.bus rfl
  rw [clock_instruction (fault_of_clock h) hidle hboundary] at h
  cases hnext : executeNext w with
  | error error w₁ =>
    rw [hnext] at h
    cases h
  | ok _ w₁ =>
    rw [hnext] at h hrun
    rw [bus_of_tick h]
    exact hrun.2.2.2.2

/-- A break at the end of the address space, with the stack pointer at the end of its page. -/
theorem clock_history_break : ∃ w' : Wired Cpu (FlatMemory 0x10000),
    clock ⟨{ registers := { pc := 0xFFFF, sp := 0x00 } }, .blank⟩ = .ok () w' ∧
      w'.bus.history = [.read 0xFFFF 0, .read 0xFFFE 0, .write 0x01FE 0x34, .write 0x01FF 0x01,
        .write 0x0100 0x00, .read 0xFFFF 0] := by
  have hi : Instruction.decode? ((.blank : FlatMemory 0x10000).content 0xFFFF) =
      some ⟨.flow .brk, .implied, 7⟩ := by
    rw [FlatMemory.content_blank]
    decide
  let w : Wired Cpu (FlatMemory 0x10000) := ⟨{ registers := { pc := 0xFFFF, sp := 0x00 } }, .blank⟩
  obtain ⟨w', hw'⟩ := clock_succeeds (w := w) rfl rfl rfl hi rfl (by decide)
  refine ⟨w', hw', ?_⟩
  rw [clock_history (w := w) rfl rfl hi hw', FlatMemory.content_blank]
  change (Instruction.accesses ⟨.flow .brk, .implied, 7⟩ (fun _ => 0)
    { pc := 0xFFFF, sp := 0x00 }).reverse ++ [] = _
  decide

end Cpu
end
end NesConsole
