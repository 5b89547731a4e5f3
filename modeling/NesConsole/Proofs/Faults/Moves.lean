import NesConsole.Proofs.Processor.Parts

/-! How far an instruction, or an interrupt entry, has moved the registers when an access of it is
refused. An instruction has passed its opcode and at most its operand; an entry has pushed three
bytes at most. -/
namespace NesConsole
namespace Registers

def Pushed (k : Nat) (r s : Registers) : Prop :=
  s.a = r.a ∧ s.x = r.x ∧ s.y = r.y ∧ s.pc = r.pc ∧ s.sp = r.sp - UInt8.ofNat k

theorem Passed.add {k l : Nat} {r s t : Registers} :
    Passed k r s → Passed l s t → Passed (k + l) r t := by
  rintro ⟨ha, hx, hy, hpc⟩ ⟨ha', hx', hy', hpc'⟩
  refine ⟨ha'.trans ha, hx'.trans hx, hy'.trans hy, ?_⟩
  rw [hpc', hpc, UInt16.add_assoc, UInt16.ofNat_add]

/-- Past one to three bytes the program counter is elsewhere. -/
theorem Passed.ne {k : Nat} {r s : Registers} (h : Passed (k + 1) r s) (hk : k ≤ 2) : s ≠ r := by
  rintro rfl
  have hpc : s.pc.toNat = (s.pc + UInt16.ofNat (k + 1)).toNat := congrArg UInt16.toNat h.2.2.2
  have hlt := s.pc.toNat_lt
  rw [UInt16.toNat_add, UInt16.toNat_ofNat'] at hpc
  omega

/-- One more byte. -/
theorem Pushed.succ {k : Nat} {r s : Registers} :
    Pushed k r s → Pushed (k + 1) r { s with sp := s.sp - 1 } := by
  rintro ⟨ha, hx, hy, hpc, hsp⟩
  refine ⟨ha, hx, hy, hpc, ?_⟩
  rw [UInt8.ofNat_add, hsp]
  grind

theorem Pushed.ne {k : Nat} {r s : Registers} (h : Pushed (k + 1) r s) (hk : k ≤ 2) : s ≠ r := by
  rintro rfl
  have hsp : s.sp.toNat = (s.sp - UInt8.ofNat (k + 1)).toNat := congrArg UInt8.toNat h.2.2.2.2
  have hlt := s.sp.toNat_lt
  rw [UInt8.toNat_sub, UInt8.toNat_ofNat'] at hsp
  omega

end Registers

open Registers (Passed Pushed)

/-! ### Instructions -/

theorem AddressingMode.operandLength_le (mode : AddressingMode) : mode.operandLength ≤ 2 := by
  cases mode <;> decide

/-- What the registers can be at a stage. Behind the last access they can be anything. -/
def Stage.Reached (N : Nat) (r : Registers) : Stage → Registers → Prop
  | ahead n _, s => n ≤ N ∧ Passed n r s
  | last, _ => True

section
variable {β : Type} [Bus β]

/-- A refused program has passed what it has taken till then. -/
theorem Built.leads_reached {S : UInt16 → Prop} {N : Nat} {s t : Stage} {α : Type} {x : Program α}
    (h : Built S N s t x) (r : Registers) :
    Leads (fun w => s.Reached N r w.chip) (x β) (fun _ w => t.Reached N r w.chip)
      fun _ w => ∃ k ≤ N, Passed k r w.chip := by
  -- What moves the stack pointer and the flags alone stays where it is.
  have hstill {n : Nat} {p q : Option Nat} {δ : Type} {x : Execution β δ}
      (hx : KeepsView (fun s : Registers => (s.a, s.x, s.y, s.pc)) x) :
      Leads (fun w => (Stage.ahead n p).Reached N r w.chip) x
        (fun _ w => (Stage.ahead n q).Reached N r w.chip) fun _ w => ∃ k ≤ N, Passed k r w.chip :=
    (hx.keeps (P := fun v => n ≤ N ∧ v.1 = r.a ∧ v.2.1 = r.x ∧ v.2.2.1 = r.y ∧
      v.2.2.2 = r.pc + UInt16.ofNat n)).mono (fun _ hw => hw) (fun _ _ hw => hw)
        fun _ _ hw => ⟨n, hw⟩
  induction h with
  | pure a => exact fun _ hw => hw
  | bind _ _ ihx ihf => exact .bind ihx ihf
  | close _ _ ih => exact ih.mono (fun _ hw => hw) (fun _ _ _ => trivial) fun _ _ hw => hw
  | look _ => exact fun _ hw => hw
  | @rest s g _ hg =>
    intro w hw
    cases s with
    | ahead n p => exact ⟨hw.1, hw.2.add (hg w.chip)⟩
    | last => trivial
  | take hn _ hg => exact fun w hw => ⟨hn, hw.2.add (hg w.chip)⟩
  | change _ _ => exact fun _ _ => trivial
  | read address => exact hstill (.read address)
  | write data _ => exact hstill (.write _ data)
  | pushFlags _ _ =>
    refine hstill (.bind (.look _) fun byte => .bind (.look _) fun sp => ?_)
    exact .bind (.write (stackAddress sp) byte) fun _ => .update fun _ => rfl
  | pullFlags =>
    refine hstill (.bind (.bind (.update fun _ => rfl) fun _ => ?_) fun _ => .update fun _ => rfl)
    exact .bind (.look _) fun sp => .read (stackAddress sp)

/-- An instruction that is refused has passed its opcode. -/
theorem Instruction.refused_run (i : Instruction) (r : Registers) :
    Leads (fun w => w.chip = r) (i.run : Execution β Nat) (fun _ _ => True)
      fun _ w => ∃ k ≤ i.mode.operandLength, Passed (k + 1) r w.chip := by
  have hopcode : Passed 1 r { r with pc := r.pc + 1, p := { r.p with unused := true } } :=
    .one rfl rfl rfl rfl
  have hrest := (Built.resolved (S := fun _ => True) (n := 0) (N := i.mode.operandLength) (i := i)
    (Nat.le_of_eq (Nat.zero_add _)) fun _ => trivial).leads_reached (β := β)
      { r with pc := r.pc + 1, p := { r.p with unused := true } }
  rintro ⟨_, b⟩ rfl
  refine hrest.mono (fun _ hw => hw) (fun _ _ _ => trivial) ?_ ⟨_, b⟩
    ⟨Nat.zero_le _, .none rfl rfl rfl rfl⟩
  rintro e w ⟨k, hk, hw⟩
  refine ⟨k, hk, ?_⟩
  rw [Nat.add_comm]
  exact hopcode.add hw

/-! ### Interrupt entries -/

theorem leads_push {k : Nat} (r : Registers) (data : UInt8) :
    Leads (fun w => Pushed k r w.chip) (push data : Execution β Unit)
      (fun _ w => Pushed (k + 1) r w.chip) fun _ w => Pushed k r w.chip := by
  have hwrite (sp : UInt8) : Keeps (fun w => Pushed k r w.chip)
      (Wired.write (stackAddress sp) data : Execution β Unit) :=
    (KeepsView.write (f := id) (stackAddress sp) data).keeps
  refine .bind (M := fun _ w => Pushed k r w.chip) (fun _ hw => hw) fun sp => ?_
  exact .bind (hwrite sp) fun _ w hw => hw.succ

section
variable {vector : UInt16} {r : Registers} {b b' : β} {e : BusError}

theorem push_error {data : UInt8} (h : (Bus.write (stackAddress r.sp) data : EStateM _ β _) b =
    .error e b') : push data ⟨r, b⟩ = .error e ⟨r, b'⟩ :=
  (bind_ok rfl).trans (bind_error (Wired.write_error h))

theorem push_ok {data : UInt8} (h : (Bus.write (stackAddress r.sp) data : EStateM _ β _) b =
    .ok () b') : push data ⟨r, b⟩ = .ok () ⟨{ r with sp := r.sp - 1 }, b'⟩ :=
  (bind_ok rfl).trans ((bind_ok (Wired.write_ok h)).trans rfl)

theorem enterInterrupt_error
    (h : (Bus.write (stackAddress r.sp) (highByte r.pc) : EStateM _ β _) b = .error e b') :
    enterInterrupt vector ⟨r, b⟩ = .error e ⟨r, b'⟩ := by
  have hword : pushWord r.pc ⟨r, b⟩ = .error e ⟨r, b'⟩ := bind_error (push_error h)
  exact (bind_ok rfl).trans (bind_error hword)

/-- An interrupt entry that is refused after its first push has pushed three bytes at most. -/
theorem enterInterrupt_refused
    (h : (Bus.write (stackAddress r.sp) (highByte r.pc) : EStateM _ β _) b = .ok () b') :
    Leads (fun w => w = ⟨r, b⟩) (enterInterrupt vector : Execution β Unit) (fun _ _ => True)
      fun _ w => ∃ k ≤ 2, Pushed (k + 1) r w.chip := by
  have hread : Keeps (fun w => Pushed 3 r w.chip) (readWord vector : Execution β UInt16) :=
    (KeepsView.bind (f := id) (.read vector) fun _ => .bind (.read _) fun _ => .pure _).keeps
  have hrest : Leads (fun w => Pushed 1 r w.chip) (do
      push (lowByte r.pc)
      push (← Wired.look (·.p.pushedByInterrupt))
      Wired.update fun s => { s with p := { s.p with interruptDisable := true } }
      jump (← readWord vector) : Execution β Unit) (fun _ _ => True)
      fun _ w => ∃ k ≤ 2, Pushed (k + 1) r w.chip := by
    refine .bind ((leads_push r _).mono (fun _ hw => hw) (fun _ _ hw => hw)
      fun _ _ hw => ⟨0, by decide, hw⟩) fun _ => ?_
    refine .bind (M := fun _ w => Pushed 2 r w.chip) (fun _ hw => hw) fun byte => ?_
    refine .bind ((leads_push r byte).mono (fun _ hw => hw) (fun _ _ hw => hw)
      fun _ _ hw => ⟨1, by decide, hw⟩) fun _ => ?_
    refine .bind (M := fun _ w => Pushed 3 r w.chip) (fun _ hw => hw) fun _ => ?_
    exact .bind (hread.mono (fun _ hw => hw) (fun _ _ hw => hw)
      fun _ _ hw => ⟨2, Nat.le_refl 2, hw⟩) fun _ _ _ => trivial
  have hfirst : Pushed 1 r { r with sp := r.sp - 1 } := ⟨rfl, rfl, rfl, rfl, rfl⟩
  have henter : (enterInterrupt vector : Execution β Unit) ⟨r, b⟩ = (do
      push (lowByte r.pc)
      push (← Wired.look (·.p.pushedByInterrupt))
      Wired.update fun s => { s with p := { s.p with interruptDisable := true } }
      jump (← readWord vector) : Execution β Unit) ⟨{ r with sp := r.sp - 1 }, b'⟩ := by
    refine (bind_ok rfl).trans ?_
    rw [pushWord, bind_assoc, bind_ok (push_ok h)]
  rintro _ rfl
  rw [henter]
  exact hrest ⟨_, b'⟩ hfirst

end
end

end NesConsole
