import NesConsole.Proofs.Processor.Leavings

/-! Undocumented operations that join two documented ones. Each leaves the registers and the memory
that the two leave one after the other on the same operand: what the first half puts into the flags
is used by the second or overwritten by it, and nothing of it is lost. -/
namespace NesConsole

inductive Combination where
  | slo | rla | sre | rra | dcp | isc | lax | alr | anc
  deriving DecidableEq, Repr

namespace Combination

def operation : Combination → Operation
  | .slo => .modify .slo
  | .rla => .modify .rla
  | .sre => .modify .sre
  | .rra => .modify .rra
  | .dcp => .modify .dcp
  | .isc => .modify .isc
  | .lax => .read .lax
  | .alr => .read .alr
  | .anc => .read .anc

section
variable {β : Type} [Bus β]

def both (first : Operation) (operand : Operand) (second : Operation) (operand' : Operand) :
    Execution β Unit := do
  let _ ← first.run operand
  let _ ← second.run operand'

/-- The documented operations that are joined, one after the other. A logical shift goes on in the
accumulator; what follows the other half of `anc` has no operation of its own and copies the
negative flag to the carry. -/
def inTurn (operand : Operand) : Combination → Execution β Unit
  | .slo => both (.modify .asl) operand (.read .ora) operand
  | .rla => both (.modify .rol) operand (.read .and) operand
  | .sre => both (.modify .lsr) operand (.read .eor) operand
  | .rra => both (.modify .ror) operand (.read .adc) operand
  | .dcp => both (.modify .dec) operand (.read .cmp) operand
  | .isc => both (.modify .inc) operand (.read .sbc) operand
  | .lax => both (.read .lda) operand (.read .ldx) operand
  | .alr => both (.read .and) operand (.modify .lsr) .accumulator
  | .anc => do
    let _ ← Operation.run (.read .and) operand
    Wired.update fun r => r.setCarry r.p.negative

end
end Combination

/-! ### Halves -/

/-- On any byte `whole` writes back what `first` does, and leaves the registers that `second` leaves
of those of `first` when it reads that byte. -/
structure ModifyOp.Joins (whole first : ModifyOp) (second : ReadOp) : Prop where
  written (v : UInt8) (r : Registers) : (whole.change v r).1 = (first.change v r).1
  registers (v : UInt8) (r : Registers) :
    whole.finish (whole.change v r).1 (whole.change v r).2 =
      second.apply (first.change v r).1 (first.finish (first.change v r).1 (first.change v r).2)

def ModifyOp.halves? : ModifyOp → Option (ModifyOp × ReadOp)
  | .slo => some (.asl, .ora)
  | .rla => some (.rol, .and)
  | .sre => some (.lsr, .eor)
  | .rra => some (.ror, .adc)
  | .dcp => some (.dec, .cmp)
  | .isc => some (.inc, .sbc)
  | _ => none

/-- The second half takes the carry of the first as it is, and sets the negative and zero flags that
the first has set. -/
theorem ModifyOp.joins_halves {whole first : ModifyOp} {second : ReadOp}
    (h : whole.halves? = some (first, second)) : whole.Joins first second := by
  cases whole <;> cases h <;> exact ⟨fun _ _ => rfl, fun _ _ => rfl⟩

section
variable {mem : UInt16 → UInt8} {r : Registers} {address : UInt16}

theorem ReadOp.logs_run (op : ReadOp) : Logs (Operation.run (.read op) (.memory address)) r mem 0
    (op.apply (mem address) r) mem [.read address (mem address)] :=
  .bind (.read address) (.bind (.update _) .pure)

theorem ModifyOp.logs_run (op : ModifyOp) :
    Logs (Operation.run (.modify op) (.memory address)) r mem 0
      (op.finish (op.change (mem address) r).1 (op.change (mem address) r).2)
      (Function.update mem address (op.change (mem address) r).1)
      [.read address (mem address), .write address (op.change (mem address) r).1] :=
  .bind (.read address) (.bind (.look _) (.bind (.update _)
    (.bind (.write address _) (.bind (.update _) .pure))))

theorem ModifyOp.logs_accumulator (op : ModifyOp) :
    Logs (Operation.run (.modify op) .accumulator) r mem 0
      (op.finish (op.change r.a r).1 { (op.change r.a r).2 with a := (op.change r.a r).1 }) mem
      [] := by
  have hstore (data : UInt8) (r : Registers) :
      Logs (Operand.accumulator.store data) r mem () { r with a := data } mem [] :=
    .update fun r : Registers => { r with a := data }
  exact .bind (.look _) (.bind (.look _) (.bind (.update _) (.bind (hstore _ _)
    (.bind (.update _) .pure))))

namespace Combination

theorem logs_both {first second : Operation} {operand operand' : Operand} {r' r'' : Registers}
    {mem' mem'' : UInt16 → UInt8} {n n' : Nat} {l l' : List Access}
    (h : Logs (first.run operand) r mem n r' mem' l)
    (h' : Logs (second.run operand') r' mem' n' r'' mem'' l') :
    Logs (both first operand second operand') r mem () r'' mem'' (l ++ (l' ++ [])) :=
  .bind h (.bind h' .pure)

def Agrees (mem : UInt16 → UInt8) (r : Registers) (address : UInt16) (j : Combination) : Prop :=
  ∃ r' mem' l l', Logs (j.operation.run (.memory address)) r mem 0 r' mem' l ∧
    Logs (j.inTurn (.memory address)) r mem () r' mem' l'

/-- The second half finds at the operand what the first has written there. -/
theorem logs_halves {whole first : ModifyOp} {second : ReadOp}
    (h : whole.Joins first second) :
    Logs (both (.modify first) (.memory address) (.read second) (.memory address)) r mem ()
      (whole.finish (whole.change (mem address) r).1 (whole.change (mem address) r).2)
      (Function.update mem address (whole.change (mem address) r).1)
      ([.read address (mem address), .write address (first.change (mem address) r).1] ++
        ([.read address (first.change (mem address) r).1] ++ [])) := by
  have hsecond : Logs (Operation.run (.read second) (.memory address))
      (first.finish (first.change (mem address) r).1 (first.change (mem address) r).2)
      (Function.update mem address (first.change (mem address) r).1) 0 _ _ _ := second.logs_run
  rw [Function.update_self] at hsecond
  rw [h.registers, h.written]
  exact logs_both first.logs_run hsecond

theorem agrees (j : Combination) : j.Agrees mem r address := by
  have hmodify {whole first : ModifyOp} {second : ReadOp}
      (h : whole.halves? = some (first, second)) :
      Logs (both (.modify first) (.memory address) (.read second) (.memory address)) r mem () _ _
        _ := logs_halves (whole.joins_halves h)
  cases j with
  | slo | rla | sre | rra | dcp | isc => exact ⟨_, _, _, _, ModifyOp.logs_run _, hmodify rfl⟩
  | lax => exact ⟨_, _, _, _, ReadOp.logs_run _, logs_both (ReadOp.logs_run _) (ReadOp.logs_run _)⟩
  | alr =>
    exact ⟨_, _, _, _, ReadOp.logs_run _,
      logs_both (ReadOp.logs_run _) (ModifyOp.logs_accumulator _)⟩
  | anc => exact ⟨_, _, _, _, ReadOp.logs_run _, .bind (ReadOp.logs_run _) (.update _)⟩

/-- On a memory that answers everywhere a combination, at any address, leaves what its halves leave
one after the other: the same registers and flags over the same memory. -/
theorem acts_in_turn (j : Combination) (address : UInt16) (r : Registers)
    (b : FlatMemory 0x10000) (hholes : b.holes = []) :
    ∃ r' b₁ b₂, j.operation.run (.memory address) ⟨r, b⟩ = .ok 0 ⟨r', b₁⟩ ∧
      j.inTurn (.memory address) ⟨r, b⟩ = .ok () ⟨r', b₂⟩ ∧ b₁.content = b₂.content := by
  obtain ⟨r', mem', l, l', hwhole, hhalves⟩ : j.Agrees b.content r address := agrees j
  obtain ⟨b₁, hok₁, hcontent₁, -⟩ := hwhole.ok hholes
  obtain ⟨b₂, hok₂, hcontent₂, -⟩ := hhalves.ok hholes
  exact ⟨r', b₁, b₂, hok₁, hok₂, hcontent₁.trans hcontent₂.symm⟩

def rotated : Wired Registers (FlatMemory 0x10000) :=
  ⟨{ a := 0x7F, p := { carry := true } }, FlatMemory.blank.set (0x10 : UInt16).toNat 0x03⟩

theorem acts_in_turn_rra : rotated.bus.holes = [] ∧
    ∃ r' b₁ b₂, Operation.run (.modify .rra) (.memory 0x10) rotated = .ok 0 ⟨r', b₁⟩ ∧
      inTurn (.memory 0x10) .rra rotated = .ok () ⟨r', b₂⟩ ∧
      r' = { rotated.chip with a := 0x01 } ∧ b₂.content 0x10 = 0x81 := by
  have hcontent : rotated.bus.content = Function.update (fun _ => 0) 0x10 0x03 :=
    (FlatMemory.content_set _ 0x10 0x03).trans (by rw [FlatMemory.content_blank])
  obtain ⟨r', b₁, b₂, hwhole, hhalves, hsame⟩ := acts_in_turn .rra 0x10 rotated.chip rotated.bus rfl
  have hwritten : Logs (Operation.run (.modify .rra) (.memory 0x10)) rotated.chip
      rotated.bus.content 0 _ _ _ := ModifyOp.rra.logs_run
  obtain ⟨b, hok, hmem, -⟩ := hwritten.ok rfl
  have hend := (EStateM.Result.ok.inj (hwhole.symm.trans hok)).2
  have hr : r' = _ := congrArg Wired.chip hend
  have hb : b₁ = b := congrArg Wired.bus hend
  rw [hcontent] at hr hmem
  refine ⟨rfl, r', b₁, b₂, hwhole, hhalves, ?_, ?_⟩
  · rw [hr]
    dsimp only
    decide
  · rw [← hsame, hb, hmem]
    decide

end Combination
end
end NesConsole
