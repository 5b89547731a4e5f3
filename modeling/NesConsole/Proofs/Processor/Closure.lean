import NesConsole.Proofs.Processor.Parts

/-! What instructions and interrupt entries keep. Whatever is kept by reads, by writes on the stack
and at an operand, and by changes of the registers that leave bit 5 of the flags set and the break
bit clear, the whole keeps, also when it is refused on the way. -/
namespace NesConsole

/-- Reads, writes in `S` and sound changes of the registers keep `P`, and what is refused ends in
`E`. -/
structure Closed {β : Type} [Bus β] (S : UInt16 → Prop) (P : Wired Registers β → Prop)
    (E : BusError → Wired Registers β → Prop) : Prop where
  read (address : UInt16) : Leads P (Wired.read address) (fun _ => P) E
  write {address : UInt16} (ha : S address) (data : UInt8) :
    Leads P (Wired.write address data) (fun _ => P) E
  change {r r' : Registers} {b : β} : (r.p.unused = true → r'.p.unused = true) →
    (r.p.brk = false → r'.p.brk = false) → P ⟨r, b⟩ → P ⟨r', b⟩

namespace Closed
variable {β : Type} [Bus β] {S : UInt16 → Prop} {P : Wired Registers β → Prop}
  {E : BusError → Wired Registers β → Prop} (h : Closed S P E)
include h

theorem update {g : Registers → Registers} (hg : Registers.Sound g) :
    Leads P (Wired.update g) (fun _ => P) E :=
  fun w hw => h.change (hg.unused w.chip) (hg.brk w.chip) hw

theorem built {N : Nat} {s t : Stage} {α : Type} {x : Program α} (hx : Built S N s t x) :
    Leads P (x β) (fun _ => P) E := by
  have hlook {δ : Type} (g : Registers → δ) : Leads P (Wired.look g) (fun _ => P) E :=
    fun _ hw => hw
  have hstack (g : UInt8 → UInt8) :
      Leads P (Wired.update fun r => { r with sp := g r.sp }) (fun _ => P) E :=
    h.update (.of_rfl (fun _ => ⟨rfl, rfl⟩) fun _ _ => rfl)
  induction hx with
  | pure a => exact fun _ hw => hw
  | bind _ _ ihx ihf => exact .bind ihx ihf
  | close _ _ ih => exact ih
  | look _ => exact hlook _
  | rest hg _ | take _ hg _ | change _ hg => exact h.update hg
  | read address => exact h.read address
  | write data ha => exact h.write ha data
  | pushFlags _ hS =>
    refine .bind (hlook _) fun byte => .bind (hlook _) fun sp => ?_
    exact .bind (h.write (hS sp) byte) fun _ => hstack (· - 1)
  | pullFlags =>
    have hpull : Leads P pull (fun _ => P) E :=
      .bind (hstack (· + 1)) fun _ => .bind (hlook _) fun sp => h.read (stackAddress sp)
    exact .bind hpull fun byte _ hw => h.change (fun _ => rfl) (fun _ => rfl) hw

theorem resolve (mode : AddressingMode) : Leads P mode.resolve (fun _ => P) E :=
  h.built (.resolve (p := none) (Nat.le_refl (0 + mode.operandLength)))

theorem load (operand : Operand) : Leads P operand.load (fun _ => P) E :=
  h.built (N := 0) (.load (n := 0) operand)

section
variable (hS : ∀ sp, S (stackAddress sp))
include hS

theorem enterInterrupt (vector : UInt16) :
    Leads P (NesConsole.enterInterrupt vector) (fun _ => P) E :=
  h.built (N := 0) (.enterInterrupt (n := 0) hS vector)

/-- An instruction writes on the stack and, if it stores, at its operand. -/
theorem instruction {i : Instruction}
    (ha : Yields (fun r => i.operation.stores = true → ∀ address, r.operand = .memory address →
      S address) (i.mode.resolve : Execution β Resolved)) :
    Leads P i.run (fun _ => P) E := by
  have hopcode : Leads P (Wired.update fun r =>
      { r with pc := r.pc + 1, p := { r.p with unused := true } }) (fun _ => P) E :=
    h.update .opcode
  have hresolve := Leads.and (h.resolve i.mode) (ha.mono (fun _ _ => trivial) (fun _ _ hr => hr)
    fun _ _ hr => hr)
  refine .bind hopcode fun _ => .bind
    (hresolve.mono (fun _ hw => hw) (fun _ _ hr => hr) fun _ _ hr => hr.1) fun r w ⟨hw, hr⟩ => ?_
  have hrun : Leads P (i.operation.run r.operand) (fun _ => P) E :=
    h.built (N := 0) (.operation (n := 0) hS i.operation hr)
  exact Leads.bind hrun (fun _ _ hw => hw) w hw

end
end Closed
end NesConsole
