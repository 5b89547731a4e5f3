import NesConsole.FlatMemory
import NesConsole.Proofs.Faults.Moves
import NesConsole.Proofs.StepRule

/-! How a cycle of the processor is refused, and what it leaves of the registers. Up to the opcode
of an instruction, and up to the first push of an interrupt entry, a refusal leaves all of them as
they were; after that the program counter or the stack pointer has moved. -/
namespace NesConsole
open Registers (Passed Pushed)

namespace Cpu
section
variable {β : Type} [CpuBus β]

def halted (e : CpuError) (w : Wired Cpu β) : Wired Cpu β :=
  ⟨{ w.chip with fault := some e }, CpuBus.report (.halted e) w.bus⟩

/-- A cycle is refused where the processor has stopped already, where what it turns to is refused,
and where its cycles cannot be counted any more. -/
theorem clock_refused {w w' : Wired Cpu β} {e : CpuError} (h : clock w = .error e w') :
    (w.chip.fault = some e ∧ w' = w) ∨
    (w.chip.fault = none ∧ w.chip.remaining = 0 ∧
      ∃ v, enter w.chip.boundary w = .error e v ∧ w' = halted e v) ∨
    (w.chip.fault = none ∧ e = .counterFull ∧ ¬w'.chip.cycles + 1 < cycleLimit ∧
      (w.chip.remaining ≠ 0 ∧ w' = w ∨
        w.chip.remaining = 0 ∧ enter w.chip.boundary w = .ok () w')) := by
  have htick {v : Wired Cpu β} (ht : tick v = .error e w') :
      e = .counterFull ∧ ¬w'.chip.cycles + 1 < cycleLimit ∧ w' = v := by
    obtain ⟨c, b⟩ := v
    by_cases hroom : c.cycles + 1 < cycleLimit
    · rw [tick, if_pos hroom] at ht
      cases ht
    · rw [tick, if_neg hroom] at ht
      cases ht
      exact ⟨rfl, hroom, rfl⟩
  unfold clock at h
  cases hfault : w.chip.fault with
  | some error =>
    rw [hfault] at h
    cases h
    exact .inl ⟨rfl, rfl⟩
  | none =>
    rw [hfault] at h
    dsimp only at h
    split at h
    case isTrue hidle =>
      rw [serve_apply] at h
      cases henter : enter w.chip.boundary w with
      | ok _ v =>
        rw [henter] at h
        obtain ⟨he, hfull, rfl⟩ := htick h
        exact .inr (.inr ⟨rfl, he, hfull, .inr ⟨hidle, rfl⟩⟩)
      | error error v =>
        rw [henter] at h
        cases h
        exact .inr (.inl ⟨rfl, hidle, v, rfl, rfl⟩)
    case isFalse hbusy =>
      obtain ⟨he, hfull, rfl⟩ := htick h
      exact .inr (.inr ⟨rfl, he, hfull, .inl ⟨hbusy, rfl⟩⟩)

theorem clock_passed {w w' : Wired Cpu β} (h : clock w = .ok () w') : w.chip.fault = none ∧
    (w.chip.remaining ≠ 0 ∧ tick w = .ok () w' ∨
      w.chip.remaining = 0 ∧ ∃ v, enter w.chip.boundary w = .ok () v ∧ tick v = .ok () w') := by
  unfold clock at h
  cases hfault : w.chip.fault with
  | some error =>
    rw [hfault] at h
    cases h
  | none =>
    rw [hfault] at h
    dsimp only at h
    split at h
    case isTrue hidle =>
      rw [serve_apply] at h
      cases henter : enter w.chip.boundary w with
      | ok _ v =>
        rw [henter] at h
        exact ⟨rfl, .inr ⟨hidle, v, rfl, h⟩⟩
      | error error v =>
        rw [henter] at h
        cases h
    case isFalse hbusy => exact ⟨rfl, .inl ⟨hbusy, h⟩⟩

/-- Whether the processor has stopped already, or what it turns to is refused before it moves a
register: at the opcode or for it, while it is reported, or at the first push. -/
def RefusedEarly (w : Wired Cpu β) : Prop :=
  w.chip.fault.isSome = true ∨
  match w.chip.boundary with
  | .instruction =>
    match (Bus.read w.chip.registers.pc : EStateM BusError β UInt8) w.bus with
    | .error _ _ => True
    | .ok opcode b => Instruction.decode? opcode = none ∨
      CpuBus.tracing b = true ∧ ∃ e v, traceLine ⟨w.chip, b⟩ = .error e v
  | .nmi | .irq => ∃ e b, (Bus.write (stackAddress w.chip.registers.sp)
      (highByte w.chip.registers.pc) : EStateM BusError β Unit) w.bus = .error e b

omit [CpuBus β] in
theorem leads_onRegisters {α : Type} {x : Execution β α} {P : Wired Registers β → Prop}
    {E : Registers → Prop} (h : Leads P x (fun _ _ => True) fun _ w => E w.chip) :
    Leads (fun w => P ⟨w.chip.registers, w.bus⟩) (access (onRegisters x)) (fun _ _ => True)
      fun _ w => E w.chip.registers := by
  rintro ⟨c, b⟩ hp
  have hr := h ⟨c.registers, b⟩ hp
  dsimp only [access, EStateM.adaptExcept, onRegisters, Wired.onPart]
  cases hx : x ⟨c.registers, b⟩ <;> rw [hx] at hr <;> exact hr

theorem leads_carryOut_refused (i : Instruction) (r : Registers) :
    Leads (fun w : Wired Cpu β => w.chip.registers = r) (carryOut i) (fun _ _ => True)
      fun _ w => ∃ k ≤ i.mode.operandLength, Passed (k + 1) r w.chip.registers :=
  .bind (M := fun _ w => w.chip.registers = r) (fun _ hw => hw) fun _ =>
    .bind (M := fun _ _ => True) (leads_onRegisters (P := fun w => w.chip = r)
      (E := fun s => ∃ k ≤ i.mode.operandLength, Passed (k + 1) r s) (i.refused_run r))
      fun _ _ _ => trivial

section
variable {c : Cpu} {b b' : β}

theorem executeNext_unread {error : BusError}
    (h : (Bus.read c.registers.pc : EStateM BusError β UInt8) b = .error error b') :
    executeNext (⟨c, b⟩ : Wired Cpu β) = .error (.bus error) ⟨c, b'⟩ :=
  (bind_ok rfl).trans (bind_error (access_error (Wired.read_error h)))

theorem executeNext_read {opcode : UInt8}
    (h : (Bus.read c.registers.pc : EStateM BusError β UInt8) b = .ok opcode b') :
    executeNext (⟨c, b⟩ : Wired Cpu β) = match Instruction.decode? opcode with
      | none => .error (.illegalOpcode opcode c.registers.pc) ⟨c, b'⟩
      | some i => takeUp i ⟨c, b'⟩ := by
  refine (bind_ok rfl).trans ((bind_ok (access_ok (Wired.read_ok h))).trans ?_)
  cases Instruction.decode? opcode <;> rfl

end

/-- An instruction that was taken up is refused in its report, or past its opcode. -/
theorem takeUp_refused {i : Instruction} {c : Cpu} {b : β} {v : Wired Cpu β} {e : CpuError}
    (h : takeUp i ⟨c, b⟩ = .error e v) :
    (CpuBus.tracing b = true ∧ ∃ e v, traceLine (⟨c, b⟩ : Wired Cpu β) = .error e v) ∧
        v.chip.registers = c.registers ∨
      ¬(CpuBus.tracing b = true ∧ ∃ e v, traceLine (⟨c, b⟩ : Wired Cpu β) = .error e v) ∧
        ∃ k ≤ 2, Passed (k + 1) c.registers v.chip.registers := by
  have hcarried {w : Wired Cpu β} (hw : w.chip.registers = c.registers)
      (hi : carryOut i w = .error e v) : ∃ k ≤ 2, Passed (k + 1) c.registers v.chip.registers := by
    have hr := leads_carryOut_refused i c.registers w hw
    rw [hi] at hr
    obtain ⟨k, hk, hpassed⟩ := hr
    exact ⟨k, Nat.le_trans hk i.mode.operandLength_le, hpassed⟩
  have htake : takeUp i (⟨c, b⟩ : Wired Cpu β) =
      if CpuBus.tracing b = true then
        (access traceLine >>= fun line => report (.executing line) >>= fun _ => carryOut i) ⟨c, b⟩
      else carryOut i ⟨c, b⟩ := by
    unfold takeUp
    refine (bind_ok rfl).trans ?_
    split <;> rfl
  rw [htake] at h
  split at h
  case isFalse hquiet => exact .inr ⟨fun ht => hquiet ht.1, hcarried rfl h⟩
  case isTrue htraced =>
    have hkept := keepsView_traceLine (β := β) Cpu.registers _ ⟨c, b⟩ rfl
    cases hline : traceLine (⟨c, b⟩ : Wired Cpu β) with
    | error error w =>
      rw [bind_error (access_error hline)] at h
      rw [hline] at hkept
      cases h
      exact .inl ⟨⟨htraced, error, _, rfl⟩, hkept⟩
    | ok line w =>
      have hreport : (report (.executing line) : EStateM CpuError (Wired Cpu β) Unit) w =
          .ok () { w with bus := CpuBus.report (.executing line) w.bus } := rfl
      rw [bind_ok (access_ok hline), bind_ok hreport] at h
      rw [hline] at hkept
      refine .inr ⟨?_, hcarried (w := ⟨w.chip, CpuBus.report (.executing line) w.bus⟩) hkept h⟩
      rintro ⟨-, -, -, ⟨⟩⟩

theorem executeNext_refused {w v : Wired Cpu β} {e : CpuError} (hfault : w.chip.fault = none)
    (hboundary : w.chip.boundary = .instruction) (h : executeNext w = .error e v) :
    RefusedEarly w ∧ v.chip.registers = w.chip.registers ∨
      ¬RefusedEarly w ∧ ∃ k ≤ 2, Passed (k + 1) w.chip.registers v.chip.registers := by
  obtain ⟨c, b⟩ := w
  have hnone : c.fault.isSome = false := by rw [show c.fault = none from hfault]; rfl
  have hboundary : c.boundary = .instruction := hboundary
  unfold RefusedEarly
  simp only [hnone, Bool.false_eq_true, false_or, hboundary]
  cases hread : (Bus.read c.registers.pc : EStateM BusError β UInt8) b with
  | error error b' =>
    rw [executeNext_unread hread] at h
    cases h
    exact .inl ⟨trivial, rfl⟩
  | ok opcode b' =>
    rw [executeNext_read hread] at h
    cases hi : Instruction.decode? opcode with
    | none =>
      rw [hi] at h
      cases h
      exact .inl ⟨.inl hi, rfl⟩
    | some i =>
      rw [hi] at h
      simpa [hi] using takeUp_refused h

theorem interrupt_refused {c : Cpu} {b : β} {v : Wired Cpu β} {e : CpuError} {vector : UInt16}
    (h : interrupt vector ⟨c, b⟩ = .error e v) :
    let written := (Bus.write (stackAddress c.registers.sp) (highByte c.registers.pc) :
      EStateM BusError β Unit) b
    (∃ e b', written = .error e b') ∧ v.chip.registers = c.registers ∨
      ¬(∃ e b', written = .error e b') ∧ ∃ k ≤ 2, Pushed (k + 1) c.registers v.chip.registers := by
  dsimp only
  cases hwrite : (Bus.write (stackAddress c.registers.sp) (highByte c.registers.pc) :
      EStateM BusError β Unit) b with
  | error error b' =>
    have henter : onRegisters (enterInterrupt vector) (⟨c, b⟩ : Wired Cpu β) =
        .error error ⟨c, b'⟩ := by
      dsimp only [onRegisters, Wired.onPart]
      rw [enterInterrupt_error hwrite]
    rw [interrupt, bind_error (access_error henter)] at h
    cases h
    exact .inl ⟨⟨error, b', rfl⟩, rfl⟩
  | ok _ b' =>
    have hleads : Leads (fun w : Wired Cpu β => (⟨w.chip.registers, w.bus⟩ : Wired Registers β) =
        ⟨c.registers, b⟩) (interrupt vector) (fun _ _ => True)
        fun _ w => ∃ k ≤ 2, Pushed (k + 1) c.registers w.chip.registers :=
      .bind (M := fun _ _ => True) (leads_onRegisters (P := (· = ⟨c.registers, b⟩))
        (E := fun s => ∃ k ≤ 2, Pushed (k + 1) c.registers s) (enterInterrupt_refused hwrite))
        fun _ _ _ => trivial
    have hr := hleads ⟨c, b⟩ rfl
    rw [h] at hr
    refine .inr ⟨?_, hr⟩
    rintro ⟨-, -, ⟨⟩⟩

/-- What an instruction boundary turns to is refused early, or past its opcode, or after a push. -/
theorem enter_refused {w v : Wired Cpu β} {e : CpuError} (hfault : w.chip.fault = none)
    (h : enter w.chip.boundary w = .error e v) :
    RefusedEarly w ∧ v.chip.registers = w.chip.registers ∨
    ¬RefusedEarly w ∧
      (w.chip.boundary = .instruction ∧
          (∃ k ≤ 2, Passed (k + 1) w.chip.registers v.chip.registers) ∨
        w.chip.boundary ≠ .instruction ∧
          ∃ k ≤ 2, Pushed (k + 1) w.chip.registers v.chip.registers) := by
  obtain ⟨c, b⟩ := w
  have hnone : c.fault.isSome = false := by rw [show c.fault = none from hfault]; rfl
  dsimp only at h ⊢
  cases hboundary : c.boundary with
  | instruction =>
    rw [hboundary] at h
    simpa using executeNext_refused (w := ⟨c, b⟩) hfault hboundary h
  | nmi =>
    rw [hboundary] at h
    have hr := interrupt_refused (c := { c with nmiPending := false }) h
    simpa [RefusedEarly, hnone, hboundary] using hr
  | irq =>
    rw [hboundary] at h
    have hr := interrupt_refused h
    simpa [RefusedEarly, hnone, hboundary] using hr

/-- A cycle that is refused at an instruction boundary leaves A, X and Y as they were. It leaves all
registers so exactly if it is refused early; else the program counter is past the opcode, with an
operand at most, or the stack pointer is past three pushes at most. -/
theorem registers_of_refused {w w' : Wired Cpu β} {e : CpuError} (hidle : w.chip.remaining = 0)
    (h : clock w = .error e w') (he : e ≠ .counterFull) :
    (w'.chip.registers.a = w.chip.registers.a ∧ w'.chip.registers.x = w.chip.registers.x ∧
      w'.chip.registers.y = w.chip.registers.y) ∧
    (w'.chip.registers = w.chip.registers ↔ RefusedEarly w) ∧
    (¬RefusedEarly w →
      (w.chip.boundary = .instruction ∧
          (∃ k ≤ 2, Passed (k + 1) w.chip.registers w'.chip.registers) ∨
        w.chip.boundary ≠ .instruction ∧
          ∃ k ≤ 2, Pushed (k + 1) w.chip.registers w'.chip.registers)) := by
  have hsame (hearly : RefusedEarly w) (hr : w'.chip.registers = w.chip.registers) :
      (w'.chip.registers.a = w.chip.registers.a ∧ w'.chip.registers.x = w.chip.registers.x ∧
        w'.chip.registers.y = w.chip.registers.y) ∧
      (w'.chip.registers = w.chip.registers ↔ RefusedEarly w) := by
    refine ⟨?_, fun _ => hearly, fun _ => hr⟩
    rw [hr]
    exact ⟨rfl, rfl, rfl⟩
  rcases clock_refused h with ⟨hfault, rfl⟩ | ⟨hfault, -, v, henter, rfl⟩ | ⟨-, hfull, -⟩
  · have hearly : RefusedEarly w' := .inl (by rw [hfault]; rfl)
    exact ⟨(hsame hearly rfl).1, (hsame hearly rfl).2, fun hlate => absurd hearly hlate⟩
  · rcases enter_refused hfault henter with ⟨hearly, hr⟩ | ⟨hlate, hmoved⟩
    · exact ⟨(hsame hearly hr).1, (hsame hearly hr).2, fun hlate => absurd hearly hlate⟩
    · refine ⟨?_, ⟨fun hr => ?_, fun hearly => absurd hearly hlate⟩, fun _ => hmoved⟩
      · rcases hmoved with ⟨-, k, -, hpassed⟩ | ⟨-, k, -, hpushed⟩
        · exact ⟨hpassed.1, hpassed.2.1, hpassed.2.2.1⟩
        · exact ⟨hpushed.1, hpushed.2.1, hpushed.2.2.1⟩
      · rcases hmoved with ⟨-, k, hk, hpassed⟩ | ⟨-, k, hk, hpushed⟩
        · exact absurd hr (hpassed.ne hk)
        · exact absurd hr (hpushed.ne hk)
  · exact absurd hfull he

def atIllegalOpcode : Wired Cpu (FlatMemory 4) := ⟨{}, { cells := #v[0x02, 0, 0, 0] }⟩

theorem registers_of_refused_opcode : ∃ w', clock atIllegalOpcode =
    .error (.illegalOpcode 0x02 0) w' ∧ w'.chip.registers = atIllegalOpcode.chip.registers := by
  have hearly : RefusedEarly atIllegalOpcode := .inr (.inl (by decide))
  have hclock : clock atIllegalOpcode = .error (.illegalOpcode 0x02 0)
      (halted (.illegalOpcode 0x02 0) ⟨{}, atIllegalOpcode.bus.note (.read 0 0x02)⟩) := rfl
  exact ⟨_, hclock, (registers_of_refused rfl hclock nofun).2.1.2 hearly⟩

/-- At a load from address 3, where no device answers. -/
def atRefusedLoad : Wired Cpu (FlatMemory 4) :=
  ⟨{}, { cells := #v[0xAD, 3, 0, 0], holes := [(3, 3)] }⟩

/-- The load is refused with the program counter past it. -/
theorem refused_load_moves_counter : atRefusedLoad.chip.remaining = 0 ∧
    ∃ w', clock atRefusedLoad = .error (.bus (.unmapped 3)) w' ∧ w'.chip.registers.pc = 3 ∧
      w'.chip.registers ≠ atRefusedLoad.chip.registers :=
  ⟨rfl, _, rfl, rfl, by decide⟩

end
end Cpu
end NesConsole
