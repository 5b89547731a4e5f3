import NesConsole.Proofs.Processor.Parts

/-! On two buses whose accesses agree the processor does the same, and leaves buses that agree
again. Relating a bus to itself, what every access keeps is kept by every run of the processor. -/
namespace NesConsole
namespace Cpu

/-- One cycle, with `serve` for what happens at an instruction boundary. -/
def clockBy {β : Type} [CpuBus β] (serve : EStateM CpuError (Wired Cpu β) Unit) :
    EStateM CpuError (Wired Cpu β) Unit := fun w =>
  match w.chip.fault with
  | some error => .error error w
  | none =>
    if w.chip.remaining = 0 then
      match serve w with
      | .ok _ w => tick w
      | .error error ⟨c, bus⟩ =>
        .error error ⟨{ c with fault := some error }, CpuBus.report (.halted error) bus⟩
    else tick w

theorem clock_eq_clockBy {β : Type} [CpuBus β] :
    (clock : EStateM CpuError (Wired Cpu β) Unit) = clockBy serve := rfl

section
variable {β α : Type} {x : EStateM BusError (Wired Cpu β) α} {w w' : Wired Cpu β}

theorem access_ok {a : α} (h : x w = .ok a w') : access x w = .ok a w' := by
  dsimp only [access, EStateM.adaptExcept]
  rw [h]

theorem access_error {e : BusError} (h : x w = .error e w') : access x w = .error (.bus e) w' := by
  dsimp only [access, EStateM.adaptExcept]
  rw [h]

end
end Cpu

/-- Buses on which every access has the same outcome and keeps them related. -/
class BusAgreement {β γ : Type} [Bus β] [Bus γ] (R : β → γ → Prop) : Prop where
  read (address : UInt16) : Agree R (Bus.read address : EStateM _ β _) (Bus.read address)
  write (address : UInt16) (data : UInt8) :
    Agree R (Bus.write address data : EStateM _ β _) (Bus.write address data)

class ReportAgreement {β γ : Type} [CpuBus β] [CpuBus γ] (R : β → γ → Prop) : Prop
    extends BusAgreement R where
  report (event : CpuEvent) (b : β) (c : γ) :
    R b c → R (CpuBus.report event b) (CpuBus.report event c)

class CpuBusAgreement {β γ : Type} [CpuBus β] [CpuBus γ] (R : β → γ → Prop) : Prop
    extends ReportAgreement R where
  tracing (b : β) (c : γ) : R b c → CpuBus.tracing b = CpuBus.tracing c

section
variable {κ α β γ : Type} [Bus β] [Bus γ] {R : β → γ → Prop} [BusAgreement R]

@[simp] theorem Agree.read (address : UInt16) :
    Agree (SameChip (κ := κ) R) (Wired.read address) (Wired.read address) :=
  .onBus (BusAgreement.read address)

@[simp] theorem Agree.write (address : UInt16) (data : UInt8) :
    Agree (SameChip (κ := κ) R) (Wired.write address data) (Wired.write address data) :=
  .onBus (BusAgreement.write address data)

theorem Agree.readWord (address : UInt16) :
    Agree (SameChip (κ := κ) R) (NesConsole.readWord address) (NesConsole.readWord address) := by
  refine .bind (.read address) fun low => ?_
  exact .bind (.read (address + 1)) fun high => .pure (wordOf low high)

/-- What is built of accesses does the same on both. -/
theorem Agree.built {S : UInt16 → Prop} {N : Nat} {s t : Stage} {x : Program α}
    (h : Built S N s t x) : Agree (SameChip R) (x β) (x γ) := by
  induction h with
  | pure a => exact .pure a
  | bind _ _ ihx ihf => exact .bind ihx ihf
  | close _ _ ih => exact ih
  | look _ => exact .look _
  | rest _ _ | take _ _ _ | change _ _ => exact .update _
  | read address => exact .read address
  | write data _ => exact .write _ data
  | pushFlags _ _ =>
    refine .bind (.look _) fun byte => .bind (.look _) fun sp => ?_
    exact .bind (.write (stackAddress sp) byte) fun _ => .update _
  | pullFlags =>
    refine .bind (.bind (.update _) fun _ => ?_) fun _ => .update _
    exact .bind (.look _) fun sp => .read (stackAddress sp)

theorem Agree.instruction (i : Instruction) : Agree (SameChip R) i.run i.run :=
  .built (.instruction i)

theorem Agree.enterInterrupt (vector : UInt16) :
    Agree (SameChip R) (NesConsole.enterInterrupt vector) (NesConsole.enterInterrupt vector) :=
  .built (S := fun _ => True) (N := 0) (s := .ahead 0 (some 2))
    (.enterInterrupt (fun _ => trivial) vector)

end

namespace Agree
section
variable {α β γ : Type} {R : β → γ → Prop}

theorem access {x : EStateM BusError (Wired Cpu β) α} {y : EStateM BusError (Wired Cpu γ) α}
    (h : Agree (SameChip R) x y) : Agree (SameChip R) (Cpu.access x) (Cpu.access y) := by
  intro w v hw
  have hr := h w v hw
  change Alike _ (EStateM.adaptExcept CpuError.bus x w) (EStateM.adaptExcept CpuError.bus y v)
  unfold EStateM.adaptExcept
  cases hs : x w <;> cases ht : y v <;> simp_all [Alike]

theorem tick : Agree (SameChip R) Cpu.tick Cpu.tick := by
  intro ⟨c, b⟩ ⟨_, b'⟩ he
  obtain ⟨rfl, hb⟩ := he
  unfold Cpu.tick
  dsimp only
  split <;> exact ⟨rfl, rfl, hb⟩

theorem stall (cycles : Nat) : Agree (SameChip R) (Cpu.stall cycles) (Cpu.stall cycles) := by
  intro ⟨c, b⟩ ⟨_, b'⟩ he
  obtain ⟨rfl, hb⟩ := he
  unfold Cpu.stall
  dsimp only
  split <;> exact ⟨rfl, rfl, hb⟩

end

section
variable {ε β γ : Type} [CpuBus β] [CpuBus γ] {R : β → γ → Prop} [ReportAgreement R]

theorem report (event : CpuEvent) :
    Agree (ε := ε) (SameChip R) (Cpu.report event) (Cpu.report event) :=
  fun w v h => ⟨rfl, h.1, ReportAgreement.report event w.bus v.bus h.2⟩

/-- Bytes are read alike where one is. -/
theorem readBytes {A : Wired Cpu β → Wired Cpu γ → Prop}
    (hread : ∀ address, Agree A (Wired.read address) (Wired.read address)) (n : Nat)
    (address : UInt16) : Agree A (Cpu.readBytes address n) (Cpu.readBytes address n) := by
  induction n generalizing address with
  | zero => exact .pure []
  | succ n ih => exact .bind (hread address) fun _ => .bind (ih _) fun _ => .pure _

theorem traceLine : Agree (SameChip R) Cpu.traceLine Cpu.traceLine :=
  .bind (.look id) fun _ => .bind (.read _) fun _ => .bind (.readBytes .read _ _) fun _ => .pure _

theorem interrupt (vector : UInt16) :
    Agree (SameChip R) (Cpu.interrupt vector) (Cpu.interrupt vector) :=
  .bind (.access (.onPart (.enterInterrupt vector))) fun _ => .update _

theorem carryOut (i : Instruction) : Agree (SameChip R) (Cpu.carryOut i) (Cpu.carryOut i) :=
  .bind (.update _) fun _ => .bind (.access (.onPart (.instruction i))) fun _ => .update _

theorem reset : Agree (SameChip R) Cpu.reset Cpu.reset :=
  .bind (.access (.readWord _)) fun _ => .bind (.update _) fun _ => .report _

/-- A cycle takes up an instruction boundary the same way, when serving it does there. -/
theorem alike_clockBy {x : EStateM CpuError (Wired Cpu β) Unit}
    {y : EStateM CpuError (Wired Cpu γ) Unit} {w : Wired Cpu β} {v : Wired Cpu γ}
    (hw : SameChip R w v) (h : w.chip.fault = none → w.chip.remaining = 0 →
      Alike (SameChip R) (x w) (y v)) :
    Alike (SameChip R) (Cpu.clockBy x w) (Cpu.clockBy y v) := by
  obtain ⟨c, b⟩ := w
  obtain ⟨_, b'⟩ := v
  obtain ⟨rfl, hb⟩ := hw
  unfold Cpu.clockBy
  dsimp only
  cases hfault : c.fault with
  | some e => exact ⟨rfl, rfl, hb⟩
  | none =>
    dsimp only
    split
    case isTrue hremaining =>
      have hr := h hfault hremaining
      cases hs : x ⟨c, b⟩ <;> cases ht : y ⟨c, b'⟩ <;> rw [hs, ht] at hr
      case ok.ok => exact tick _ _ hr.2
      case error.error =>
        obtain ⟨rfl, hchip, hbus⟩ := hr
        exact ⟨rfl, by rw [hchip], ReportAgreement.report _ _ _ hbus⟩
      all_goals exact hr.elim
    case isFalse => exact tick _ _ ⟨rfl, hb⟩

theorem clockBy {x : EStateM CpuError (Wired Cpu β) Unit} {y : EStateM CpuError (Wired Cpu γ) Unit}
    (h : Agree (SameChip R) x y) : Agree (SameChip R) (Cpu.clockBy x) (Cpu.clockBy y) :=
  fun w v hw => alike_clockBy hw fun _ _ => h w v hw

end

variable {β γ : Type} [CpuBus β] [CpuBus γ] {R : β → γ → Prop} [CpuBusAgreement R]

theorem executeNext : Agree (SameChip R) Cpu.executeNext Cpu.executeNext := by
  refine .bind (.look _) fun address => .bind (.access (.read address)) fun opcode => ?_
  cases Instruction.decode? opcode with
  | none => exact .throw _
  | some i =>
    refine .bind_get fun w v hw => ?_
    rw [CpuBusAgreement.tracing w.bus v.bus hw.2]
    cases CpuBus.tracing v.bus with
    | false => exact carryOut i w v hw
    | true =>
      exact Agree.bind (.access .traceLine) (fun line => .bind (.report _) fun _ => carryOut i)
        w v hw

theorem serve : Agree (SameChip R) Cpu.serve Cpu.serve := by
  refine .bind (.look id) fun c => ?_
  split
  · exact .bind (.update _) fun _ => .interrupt _
  · split
    · exact .interrupt _
    · exact .executeNext

/-- One cycle depends on the bus through its accesses alone. -/
theorem clock : Agree (SameChip R) Cpu.clock Cpu.clock := clockBy serve

end Agree
end NesConsole
