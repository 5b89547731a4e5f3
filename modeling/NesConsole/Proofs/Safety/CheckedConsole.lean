import NesConsole.Proofs.Safety.CheckedPicture
import NesConsole.Proofs.Safety.Refusals

/-! The processor, the buses and the console with their arithmetic checked, as the picture unit is.
On a console whose cartridge is whole no check refuses. -/
namespace NesConsole

def SameOn {ε σ α : Type} (P : σ → Prop) (x y : EStateM ε σ α) : Prop := ∀ s, P s → x s = y s

namespace SameOn
variable {ε σ κ β α δ : Type} {P : σ → Prop}

theorem of_eq {x y : EStateM ε σ α} (h : x = y) : SameOn P x y := fun s _ => congrFun h s

theorem bind {x y : EStateM ε σ δ} {f g : δ → EStateM ε σ α} {M : δ → σ → Prop}
    {E : ε → σ → Prop} (h : SameOn P x y) (hy : Leads P y M E)
    (hf : ∀ d, SameOn (M d) (f d) (g d)) : SameOn P (x >>= f) (y >>= g) := by
  intro s hs
  have hxy := h s hs
  have hr := hy s hs
  cases hd : y s <;> rw [hd] at hr hxy
  case ok d s' =>
    rw [bind_ok hxy, bind_ok hd]
    exact hf d s' hr
  case error => rw [bind_error hxy, bind_error hd]

/-- Sameness on kept states is agreement of a bus with itself. -/
theorem agree {x y : EStateM ε σ α} (h : SameOn P x y) (hy : Keeps P y) :
    Agree (fun s t => s = t ∧ P t) x y := by
  rintro s _ ⟨rfl, hs⟩
  have hr := hy s hs
  rw [h s hs]
  cases hx : y s <;> rw [hx] at hr <;> exact ⟨rfl, rfl, hr⟩

theorem of_agree {P : β → Prop} {x y : EStateM ε (Wired κ β) α}
    (h : Agree (SameChip fun b b' => b = b' ∧ P b') x y) : SameOn (fun w => P w.bus) x y := by
  intro w hw
  have hr := h w w ⟨rfl, rfl, hw⟩
  cases hx : x w <;> cases hy : y w <;> rw [hx, hy] at hr
  case ok.ok a v b u =>
    obtain ⟨rfl, hchip, hbus, -⟩ := hr
    cases v
    cases u
    cases hchip
    cases hbus
    rfl
  case error.error e v f u =>
    obtain ⟨rfl, hchip, hbus, -⟩ := hr
    cases v
    cases u
    cases hchip
    cases hbus
    rfl
  all_goals exact hr.elim

end SameOn

/-! ### The processor -/

def ReadOp.addend? (v : UInt8) : ReadOp → Option UInt8
  | .adc => some v
  | .sbc => some (v ^^^ 0xFF)
  | _ => none

def ModifyOp.addend? (v : UInt8) : ModifyOp → Option UInt8
  | .rra => some v
  | .isc => some (v ^^^ 0xFF)
  | _ => none

section
variable {β : Type}

def checkedSum : Option UInt8 → Execution β Unit
  | none => return
  | some v => do
    let r ← Wired.look id
    let _ ← within 0x10000 (r.a.toNat + v.toNat + r.p.carry.toNat)

theorem checkedSum_eq (addend : Option UInt8) :
    (checkedSum addend : Execution β Unit) = pure () := by
  cases addend with
  | none => rfl
  | some v =>
    funext w
    have ha := w.chip.a.toNat_lt
    have hv := v.toNat_lt
    have hc := w.chip.p.carry.toNat_le
    change (within 0x10000 (w.chip.a.toNat + v.toNat + w.chip.p.carry.toNat) >>= fun _ => pure () :
      Execution β Unit) w = _
    rw [within_of_lt (by omega)]
    rfl

variable [Bus β]

def Operation.checkedRun (op : Operation) (operand : Operand) : Execution β Nat := do
  match op with
  | .read op =>
    let v ← operand.load
    checkedSum (op.addend? v)
    Wired.update fun r => op.apply v r
    return 0
  | .modify op =>
    let v ← operand.load
    let (changed, r) ← Wired.look fun r => op.change v r
    Wired.update fun _ => r
    operand.store changed
    checkedSum (op.addend? changed)
    Wired.update fun r => op.finish changed r
    return 0
  | op => op.run operand

theorem Operation.checkedRun_eq (op : Operation) (operand : Operand) :
    (op.checkedRun operand : Execution β Nat) = op.run operand := by
  unfold checkedRun
  split
  · simp only [checkedSum_eq, pure_bind]
    rfl
  · simp only [checkedSum_eq, pure_bind]
    rfl
  · rfl

def Instruction.checkedRun (i : Instruction) : Execution β Nat := do
  Wired.update fun r => { r with pc := r.pc + 1, p := { r.p with unused := true } }
  let ⟨operand, crossed⟩ ← i.mode.resolve
  let extra ← i.operation.checkedRun operand
  return if crossed && i.operation.pagePenalty then extra + 1 else extra

theorem Instruction.checkedRun_eq (i : Instruction) : (i.checkedRun : Execution β Nat) = i.run := by
  unfold checkedRun run
  simp only [Operation.checkedRun_eq]

end

namespace Cpu
section
variable {β : Type} [CpuBus β]

def checkedExecuteNext : EStateM CpuError (Wired Cpu β) Unit := do
  let address ← Wired.look (·.registers.pc)
  let opcode ← access (Wired.read address)
  match Instruction.decode? opcode with
  | none => throw (.illegalOpcode opcode address)
  | some i =>
    if CpuBus.tracing (← get).bus then
      report (.executing (← access traceLine))
    Wired.update fun c => { c with remaining := i.cycles }
    let extra ← access (onRegisters i.checkedRun)
    let waiting ← access (within waitLimit ((← Wired.look (·.remaining)) + extra))
    Wired.update fun c => { c with remaining := waiting }

def checkedServe : EStateM CpuError (Wired Cpu β) Unit := do
  let c ← Wired.look id
  if c.nmiPending then
    Wired.update fun c => { c with nmiPending := false }
    interrupt nmiVector
  else if c.irqLine && !c.registers.p.interruptDisable then
    interrupt irqVector
  else
    checkedExecuteNext

def checkedTick : EStateM CpuError (Wired Cpu β) Unit := do
  let _ ← access (less (← Wired.look (·.remaining)) 1)
  tick

def checkedClock : EStateM CpuError (Wired Cpu β) Unit := fun w =>
  match w.chip.fault with
  | some error => .error error w
  | none =>
    if w.chip.remaining = 0 then
      match checkedServe w with
      | .ok _ w => checkedTick w
      | .error error ⟨c, bus⟩ =>
        .error error ⟨{ c with fault := some error }, CpuBus.report (.halted error) bus⟩
    else checkedTick w

theorem leads_run (i : Instruction) :
    Leads (fun w : Wired Cpu β => w.chip.remaining = i.cycles) (access (onRegisters i.run))
      (fun n w => n ≤ 3 ∧ w.chip.remaining = i.cycles) fun _ _ => True := by
  have hyields : Yields (· ≤ 3) (access (onRegisters i.run) :
      EStateM CpuError (Wired Cpu β) Nat) := .access (.onPart i.yields_run)
  have hkeeps : KeepsView Cpu.remaining (access (onRegisters i.run) :
      EStateM CpuError (Wired Cpu β) Nat) := keepsView_access (.onPart _ fun _ _ => rfl)
  intro w hw
  have hn := hyields w trivial
  have hr := hkeeps _ w hw
  cases hx : (access (onRegisters i.run) : EStateM CpuError (Wired Cpu β) Nat) w <;>
    rw [hx] at hn hr
  case ok => exact ⟨hn, hr⟩
  case error => trivial

/-- At most three cycles more fit behind those of any instruction. -/
theorem carryOut_checked {i : Instruction} (hi : i.cycles ≤ 8) :
    (do
      Wired.update fun c => { c with remaining := i.cycles }
      let extra ← access (onRegisters i.run)
      let waiting ← access (within waitLimit ((← Wired.look (·.remaining)) + extra))
      Wired.update fun c => { c with remaining := waiting } :
        EStateM CpuError (Wired Cpu β) Unit) = carryOut i := by
  have hsum (n : Nat) : SameOn (fun w : Wired Cpu β => n ≤ 3 ∧ w.chip.remaining = i.cycles)
      (do
        let waiting ← access (within waitLimit ((← Wired.look (·.remaining)) + n))
        Wired.update fun c => { c with remaining := waiting })
      (Wired.update fun c => { c with remaining := c.remaining + n }) := by
    intro w ⟨hn, hw⟩
    have hlt : w.chip.remaining + n < waitLimit := by
      have : 11 < waitLimit := by decide
      omega
    change (access (within waitLimit (w.chip.remaining + n)) >>= fun waiting =>
      Wired.update fun c => { c with remaining := waiting } :
        EStateM CpuError (Wired Cpu β) Unit) w = _
    rw [within_of_lt hlt]
    rfl
  funext w
  exact SameOn.bind (.of_eq rfl) (leads_run i) hsum
    ⟨{ w.chip with remaining := i.cycles }, w.bus⟩ rfl

theorem checkedExecuteNext_eq :
    (checkedExecuteNext : EStateM CpuError (Wired Cpu β) Unit) = executeNext := by
  unfold checkedExecuteNext executeNext
  refine bind_congr fun address => bind_congr fun opcode => ?_
  cases hi : Instruction.decode? opcode with
  | none => rfl
  | some i =>
    have hrest := carryOut_checked (β := β) (Instruction.decode?_cycles hi).2
    simp only [Instruction.checkedRun_eq, hrest]
    rfl

theorem checkedServe_eq : (checkedServe : EStateM CpuError (Wired Cpu β) Unit) = serve := by
  unfold checkedServe serve
  rw [checkedExecuteNext_eq]

omit [CpuBus β] in
theorem checkedTick_apply {w : Wired Cpu β} (h : 1 ≤ w.chip.remaining) :
    checkedTick w = tick w := by
  change (access (less w.chip.remaining 1) >>= fun _ => tick : EStateM CpuError _ Unit) w = _
  rw [less_of_le h]
  rfl

end
end Cpu

/-! ### The buses -/

section
variable {σ : Type}

/-- The differences that a read from the cartridge takes: the last bank from the number of banks,
the place in work RAM from the address. -/
def Cartridge.checkRead (address : UInt16) (c : Cartridge) : EStateM BusError σ Unit := do
  if 0x8000 ≤ address then
    let _ ← less c.board.programBanks 1
  else if 0x6000 ≤ address then
    let _ ← less address.toNat 0x6000

/-- What a write to the cartridge computes: a serial mapper counts bits in a byte. -/
def Cartridge.checkWrite (address : UInt16) (data : UInt8) (c : Cartridge) :
    EStateM BusError σ Unit := do
  if 0x8000 ≤ address then
    match c.board.mapper with
    | .mmc1 m =>
      unless hasBit data 7 do
        let _ ← within 0x100 (m.pending.length + 1)
    | _ => return
  else if 0x6000 ≤ address then
    let _ ← less address.toNat 0x6000

theorem Cartridge.checkRead_eq (address : UInt16) (c : Cartridge) :
    (c.checkRead address : EStateM BusError σ Unit) = pure () := by
  have hbanks : 1 ≤ c.board.programBanks := Nat.le_max_right _ _
  unfold checkRead
  split
  · rw [less_of_le hbanks]
    rfl
  · split
    case isTrue h =>
      rw [less_of_le (show 0x6000 ≤ address.toNat from UInt16.le_iff_toNat_le.1 h)]
      rfl
    case isFalse => rfl

theorem Cartridge.checkWrite_eq {c : Cartridge} (hc : c.board.Whole) (address : UInt16)
    (data : UInt8) : (c.checkWrite address data : EStateM BusError σ Unit) = pure () := by
  unfold checkWrite
  split
  · split
    case h_1 m hm =>
      have hpending := hc.pending m hm
      split
      · rfl
      · rw [within_of_lt (by omega)]
        rfl
    case h_2 => rfl
  · split
    case isTrue h =>
      rw [less_of_le (show 0x6000 ≤ address.toNat from UInt16.le_iff_toNat_le.1 h)]
      rfl
    case isFalse => rfl

end

namespace MainBus

def checkedRead (address : UInt16) : EStateM BusError MainBus UInt8 := do
  match mainMap.owner? address with
  | some .picture => onPicture (Ppu.checkedReadRegister address)
  | some .cartridge =>
    (← get).video.cartridge.checkRead address
    MainBus.read address
  | _ => MainBus.read address

def checkedWrite (address : UInt16) (data : UInt8) : EStateM BusError MainBus Unit := do
  match mainMap.owner? address with
  | some .picture => onPicture (Ppu.checkedWriteRegister address data)
  | some .cartridge =>
    (← get).video.cartridge.checkWrite address data
    MainBus.write address data
  | _ => MainBus.write address data

@[reducible] def checked : CpuBus MainBus where
  read := checkedRead
  write := checkedWrite
  tracing := CpuBus.tracing
  report := CpuBus.report

theorem checkedRead_eq (address : UInt16) : checkedRead address = MainBus.read address := by
  unfold checkedRead
  split
  case h_1 howner =>
    rw [Ppu.checkedReadRegister_eq]
    funext b
    simp only [MainBus.read, howner]
  case h_2 =>
    funext b
    exact congrFun (congrArg (· >>= fun _ => MainBus.read address)
      (Cartridge.checkRead_eq address b.video.cartridge)) b
  case h_3 => rfl

theorem checkedWrite_same (address : UInt16) (data : UInt8) :
    SameOn Whole (checkedWrite address data) (MainBus.write address data) := by
  unfold checkedWrite
  split
  case h_1 howner =>
    rw [Ppu.checkedWriteRegister_eq]
    intro b _
    simp only [MainBus.write, howner]
  case h_2 =>
    intro b hb
    exact congrFun (congrArg (· >>= fun _ => MainBus.write address data)
      (Cartridge.checkWrite_eq hb address data)) b
  case h_3 => exact .of_eq rfl

def WholeCopy (b b' : MainBus) : Prop := b = b' ∧ b'.Whole

theorem keeps_whole {α : Type} {x : EStateM BusError MainBus α} {E : BusError → MainBus → Prop}
    (h : Leads Whole x (fun _ => Whole) fun e b => E e b ∧ b.Whole) : Keeps Whole x :=
  h.mono (fun _ h => h) (fun _ _ h => h) fun _ _ h => h.2

theorem checked_agreement : @CpuBusAgreement MainBus MainBus checked inferInstance WholeCopy :=
  @CpuBusAgreement.mk MainBus MainBus checked inferInstance WholeCopy
    (@ReportAgreement.mk MainBus MainBus checked inferInstance WholeCopy
      (@BusAgreement.mk MainBus MainBus checked.toBus inferInstance WholeCopy
        (fun address =>
          (SameOn.of_eq (checkedRead_eq address)).agree (keeps_whole (leads_read address)))
        fun address data =>
          (checkedWrite_same address data).agree (keeps_whole (leads_write address data)))
      fun _ _ _ h => ⟨congrArg _ h.1, h.2⟩)
    fun _ _ h => congrArg _ h.1

instance : CpuTrapFree Whole where
  read address := (leads_read address).mono (fun _ h => h) (fun _ _ h => h)
    fun _ _ h => ⟨h.1 ▸ rfl, h.2⟩
  write address data := (leads_write address data).mono (fun _ h => h) (fun _ _ h => h)
    fun _ _ h => ⟨h.1 ▸ rfl, h.2⟩
  report _ _ h := h

end MainBus

namespace Cpu
open MainBus (Whole)

theorem checkedServe_same : SameOn (fun w => Whole w.bus)
    (@checkedServe MainBus MainBus.checked) serve := by
  rw [@checkedServe_eq MainBus MainBus.checked]
  exact .of_agree (@Agree.serve MainBus MainBus MainBus.checked inferInstance MainBus.WholeCopy
    MainBus.checked_agreement)

/-- A checked cycle is a cycle. -/
theorem checkedClock_same : SameOn (fun w => Whole w.bus)
    (@checkedClock MainBus MainBus.checked) clock := by
  intro w hw
  unfold checkedClock clock
  cases w.chip.fault with
  | some e => rfl
  | none =>
    dsimp only
    by_cases hr : w.chip.remaining = 0
    · have hserve := leads_serve (P := Whole) w ⟨hw, by omega⟩
      rw [if_pos hr, if_pos hr, checkedServe_same w hw]
      cases hs : serve w <;> rw [hs] at hserve
      case ok => exact checkedTick_apply hserve.2.1
      case error => rfl
    · rw [if_neg hr, if_neg hr]
      exact checkedTick_apply (Nat.pos_of_ne_zero hr)

theorem checkedReset_same : SameOn (fun w => Whole w.bus)
    (@reset MainBus MainBus.checked) reset :=
  .of_agree (@Agree.reset MainBus MainBus MainBus.checked inferInstance MainBus.WholeCopy
    MainBus.checked_agreement.toReportAgreement)

end Cpu
end NesConsole
