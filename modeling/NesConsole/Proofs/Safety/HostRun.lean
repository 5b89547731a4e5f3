import NesConsole.Proofs.Safety.CheckedConsole

/-! What a host may do with a console, in any order and past any error. No access misses its
memory, no sum leaves its width, and the processor never waits for less than nothing, until the
count of cycles is at its end. The count of frames has no width here. -/
namespace NesConsole

inductive HostOp where
  | reset | step | runFrame
  | hold (pad : Nat) (buttons : UInt8)
  | read (address : UInt16)
  | write (address : UInt16) (data : UInt8)
  | readVideo (address : UInt16)
  | stepDot
  | transferObjects (page : UInt8)

namespace HostOp

def requests : HostOp → Bool
  | .write address _ => address == Peripherals.transferAddress
  | _ => false

def run : HostOp → EStateM ConsoleError Console (Option UInt8)
  | .reset => do
    Console.reset
    return none
  | .step => do
    Console.step
    return none
  | .runFrame => do
    Console.runFrame
    return none
  | .hold pad buttons => do
    modify (Console.hold pad buttons)
    return none
  | .read address => return some (← Console.onBus (MainBus.read address))
  | .write address data => do
    Console.onBus (MainBus.write address data)
    return none
  | .readVideo address => return some (← Console.onBus (MainBus.onPicture (Wired.read address)))
  | .stepDot => do
    let _ ← Console.onBus MainBus.stepDot
    return none
  | .transferObjects page => do
    Console.onBus (MainBus.transferObjects page)
    return none

end HostOp

/-! ### The console with its arithmetic checked -/

namespace MainBus

def checkedBlock (address : UInt16) : (n : Nat) → EStateM BusError MainBus (List UInt8)
  | 0 => return []
  | n + 1 => do
    let byte ← checkedRead address
    return byte :: (← checkedBlock (address + 1) n)

def checkedTransfer (page : UInt8) : EStateM BusError MainBus Unit := do
  modify (note [.objectTransfer (wordOf 0 page)])
  let block := (← checkedBlock (wordOf 0 page) 256).toArray
  modify fun bus =>
    { bus with picture := bus.picture.writeObjects (Vector.ofFn fun i => block.getD i.val 0) }

theorem checkedBlock_eq (address : UInt16) (n : Nat) :
    checkedBlock address n = readBlock address n := by
  induction n generalizing address with
  | zero => rfl
  | succ n ih => simp only [checkedBlock, readBlock, checkedRead_eq, ih]

theorem checkedTransfer_eq (page : UInt8) : checkedTransfer page = transferObjects page := by
  simp only [checkedTransfer, transferObjects, checkedBlock_eq]

end MainBus

namespace Console

def checkedDot : EStateM ConsoleError Console Unit := do
  let tick ← onBus (MainBus.onPicture Ppu.checkedStep)
  modify (heed tick)

def checkedServeTransfer : EStateM ConsoleError Console Unit := do
  match ← onBus MainBus.takeTransfer with
  | none => return
  | some page =>
    onBus (MainBus.checkedTransfer page)
    onMachine (Cpu.stall (transferCycles + (← get).cpu.cycles % 2))

def checkedStep : EStateM ConsoleError Console Unit := do
  onMachine (@Cpu.checkedClock MainBus MainBus.checked)
  checkedDot
  checkedDot
  checkedDot
  checkedServeTransfer

def checkedUntilReady : (n : Nat) → EStateM ConsoleError Console Unit
  | 0 => return
  | n + 1 => do
    if (← get).frameReady then return
    checkedStep
    checkedUntilReady n

def checkedFrame : EStateM ConsoleError Console Unit := do
  modify fun c => { c with frameReady := false }
  checkedUntilReady longestFrame

def checkedReset : EStateM ConsoleError Console Unit := do
  modify (updateBus MainBus.reset)
  onMachine (@Cpu.reset MainBus MainBus.checked)
  modify fun c => { c with frameReady := false }

end Console

/-- As `run`, with every sum, difference and index checked. -/
def HostOp.checkedRun : HostOp → EStateM ConsoleError Console (Option UInt8)
  | .reset => do
    Console.checkedReset
    return none
  | .step => do
    Console.checkedStep
    return none
  | .runFrame => do
    Console.checkedFrame
    return none
  | .hold pad buttons => do
    modify (Console.hold pad buttons)
    return none
  | .read address => return some (← Console.onBus (MainBus.checkedRead address))
  | .write address data => do
    Console.onBus (MainBus.checkedWrite address data)
    return none
  | .readVideo address => return some (← Console.onBus (MainBus.onPicture (Wired.read address)))
  | .stepDot => do
    let _ ← Console.onBus (MainBus.onPicture Ppu.checkedStep)
    return none
  | .transferObjects page => do
    Console.onBus (MainBus.checkedTransfer page)
    return none

/-! ### What every operation keeps -/

/-- The processor waits for at most `most` cycles, and for at most `small` while an object transfer
is asked for; what stopped it is not a trap. -/
structure Sound (most small : Nat) (w : Wired Cpu MainBus) : Prop where
  whole : w.bus.Whole
  waits : w.chip.remaining ≤ most
  transfer : w.bus.peripherals.transfer.isSome → w.chip.remaining ≤ small
  fault : ∀ e, w.chip.fault = some e → e.isTrap = false

namespace MainBus

def Calm (request : Option UInt8) (b : MainBus) : Prop :=
  b.Whole ∧ b.peripherals.transfer = request

abbrev Calms {α : Type} (request : Option UInt8) (x : EStateM BusError MainBus α) : Prop :=
  Leads (Calm request) x (fun _ => Calm request) fun e b => e.isTrap = false ∧ Calm request b

theorem transfer_onPicture {α : Type} {request : Option UInt8}
    (x : EStateM BusError (Wired Ppu VideoBus) α) :
    Keeps (fun b : MainBus => b.peripherals.transfer = request) (onPicture x) := by
  intro ⟨ram, peripherals, video, picture⟩ h
  dsimp only [onPicture]
  cases x ⟨picture, video⟩ <;> exact h

theorem Peripherals.transfer_read (address : UInt16) (p : Peripherals) :
    (p.read address).2.transfer = p.transfer := by
  unfold Peripherals.read
  split
  · rfl
  · split <;> rfl

theorem Peripherals.transfer_write {address : UInt16} (h : address ≠ Peripherals.transferAddress)
    (data : UInt8) (p : Peripherals) : (p.write address data).transfer = p.transfer := by
  unfold Peripherals.write
  rw [if_neg h]
  split <;> rfl

theorem transfer_mainRead {request : Option UInt8} (address : UInt16) :
    Keeps (fun b => b.peripherals.transfer = request) (MainBus.read address) := by
  intro b h
  unfold MainBus.read
  cases mainMap.owner? address with
  | none => exact h
  | some device =>
    cases device with
    | ram | ramAgain => exact h
    | picture => exact transfer_onPicture _ b h
    | peripherals => exact (Peripherals.transfer_read address b.peripherals).trans h
    | cartridge =>
      dsimp only
      cases b.video.cartridge.read? address <;> exact h

theorem transfer_mainWrite {request : Option UInt8} {address : UInt16}
    (ha : address ≠ Peripherals.transferAddress) (data : UInt8) :
    Keeps (fun b => b.peripherals.transfer = request) (MainBus.write address data) := by
  intro b h
  unfold MainBus.write
  cases mainMap.owner? address with
  | none => exact h
  | some device =>
    cases device with
    | ram | ramAgain | cartridge => exact h
    | picture => exact transfer_onPicture _ b h
    | peripherals => exact (Peripherals.transfer_write ha data b.peripherals).trans h

theorem Calms.of {α : Type} {request : Option UInt8} {x : EStateM BusError MainBus α}
    (h : Leads Whole x (fun _ => Whole) fun e b => e.isTrap = false ∧ b.Whole)
    (ht : Keeps (fun b => b.peripherals.transfer = request) x) : Calms request x := by
  intro b ⟨hw, hr⟩
  have hwhole := h b hw
  have hrequest := ht b hr
  cases hx : x b <;> rw [hx] at hwhole hrequest
  case ok => exact ⟨hwhole, hrequest⟩
  case error => exact ⟨hwhole.1, hwhole.2, hrequest⟩

theorem calms_read (request : Option UInt8) (address : UInt16) :
    Calms request (MainBus.read address) :=
  .of (TrapFree.read (P := Whole) address) (transfer_mainRead address)

theorem calms_write (request : Option UInt8) {address : UInt16}
    (h : address ≠ Peripherals.transferAddress) (data : UInt8) :
    Calms request (MainBus.write address data) :=
  .of (TrapFree.write (P := Whole) address data) (transfer_mainWrite h data)

theorem calms_readVideo (request : Option UInt8) (address : UInt16) :
    Calms request (onPicture (Wired.read address)) := by
  refine .of ?_ (transfer_onPicture _)
  intro b hb
  obtain ⟨v, hread, rfl⟩ := VideoBus.steady_of_whole hb address b.video rfl
  simp only [onPicture, Wired.read, Wired.onBus, hread]
  exact hb

theorem calms_stepDot (request : Option UInt8) : Calms request stepDot := by
  intro b ⟨hw, hr⟩
  obtain ⟨p', hstep⟩ := exists_stepDot hw
  rw [hstep]
  exact ⟨hw, hr⟩

theorem calms_transferObjects (request : Option UInt8) (page : UInt8) :
    Calms request (transferObjects page) :=
  leads_transfer (calms_read request) (fun _ _ h => h) (fun _ _ h => h) page

end MainBus

namespace Cpu

theorem keepsView_serve {β τ : Type} [CpuBus β] {f : Cpu → τ} (h : Outside f)
    (hn : ∀ c : Cpu, f { c with nmiPending := false } = f c) :
    KeepsView (β := β) f serve := by
  rw [serve_eq_enter]
  exact .bind (.look _) fun entry => keepsView_enter h hn entry

end Cpu

namespace Sound
variable {most small : Nat}

theorem mono {w : Wired Cpu MainBus} (h : Sound most small w) {most' small' : Nat}
    (hm : most ≤ most') (hs : small ≤ small') : Sound most' small' w where
  whole := h.whole
  waits := Nat.le_trans h.waits hm
  transfer ht := Nat.le_trans (h.transfer ht) hs
  fault := h.fault

/-- A cycle is over, if it can be counted. -/
theorem leads_tick : Leads (Sound (most + 1) (small + 1)) Cpu.tick (fun _ => Sound most small)
    fun _ w => Sound (most + 1) (small + 1) w ∧ cycleLimit ≤ w.chip.cycles + 1 := by
  intro ⟨c, b⟩ h
  have hwaits : c.remaining ≤ most + 1 := h.waits
  have htransfer : b.peripherals.transfer.isSome → c.remaining ≤ small + 1 := h.transfer
  unfold Cpu.tick
  by_cases hc : c.cycles + 1 < cycleLimit
  · simp only [hc, if_true]
    refine ⟨h.whole, ?_, fun ht => ?_, h.fault⟩
    · change c.remaining - 1 ≤ most
      omega
    · have := htransfer ht
      change c.remaining - 1 ≤ small
      omega
  · simp only [hc, if_false]
    exact ⟨h, Nat.le_of_not_lt hc⟩

end Sound

/-- What a refusal leaves behind. Only the end of the cycle count is met as a trap. -/
def Stopped (most small : Nat) (trap : Bool) (w : Wired Cpu MainBus) : Prop :=
  Sound most small w ∧ (trap = true → cycleLimit ≤ w.chip.cycles + 1)

theorem Cpu.leads_clock : Leads (Sound 525 11) Cpu.clock (fun _ => Sound 524 10)
    fun e => Stopped 525 11 e.isTrap := by
  have htick : Leads (Sound 525 11) tick (fun _ => Sound 524 10)
      fun e => Stopped 525 11 e.isTrap :=
    Sound.leads_tick.mono (fun _ h => h) (fun _ _ h => h) fun _ _ h => ⟨h.1, fun _ => h.2⟩
  intro w h
  unfold clock
  cases hf : w.chip.fault with
  | some e => exact ⟨h, fun ht => absurd ht (by simp [h.fault e hf])⟩
  | none =>
    dsimp only
    by_cases hr : w.chip.remaining = 0
    · rw [if_pos hr]
      have hserve := leads_serve (P := MainBus.Whole) w ⟨h.whole, by omega⟩
      have hfault := keepsView_serve (β := MainBus) (f := Cpu.fault)
        ⟨fun _ _ => rfl, fun _ _ => rfl⟩ (fun _ => rfl) _ w hf
      cases hs : serve w <;> rw [hs] at hserve hfault
      case ok _ v =>
        -- An instruction takes at most eleven cycles, and this is the first of them.
        refine htick v ⟨hserve.1, by omega, fun _ => by omega, fun e he => ?_⟩
        rw [hfault] at he
        cases he
      case error e v =>
        obtain ⟨he, hwhole, hleast⟩ := hserve
        refine ⟨⟨hwhole, ?_, fun _ => ?_, fun e' he' => ?_⟩, fun ht => absurd ht (by simp [he])⟩
        · exact Nat.le_trans hleast (by decide)
        · exact Nat.le_trans hleast (by decide)
        · cases he'
          exact he
    · rw [if_neg hr]
      exact htick w h

namespace Cpu

/-- A processor that waits for few cycles can be held up for a transfer. -/
theorem leads_stall {cycles : Nat} (h : cycles ≤ 514) :
    Leads (fun w => Sound 10 10 w ∧ w.bus.peripherals.transfer = none) (stall cycles)
      (fun _ => Sound 525 11) fun _ _ => False := by
  intro ⟨c, b⟩ ⟨hsound, hnone⟩
  have hwaits : c.remaining ≤ 10 := hsound.waits
  have hlimit : 524 < waitLimit := by decide
  unfold stall
  dsimp only
  rw [if_pos (show c.remaining + cycles < waitLimit by omega)]
  refine ⟨hsound.whole, ?_, fun ht => absurd ht ?_, hsound.fault⟩
  · change c.remaining + cycles ≤ 525
    omega
  · change ¬b.peripherals.transfer.isSome = true
    rw [show b.peripherals.transfer = none from hnone]
    nofun

theorem sound_reset {request : Option UInt8} :
    Leads (fun w => Sound 525 11 w ∧ w.bus.peripherals.transfer = request) reset
      (fun _ => Sound 525 11) fun e => Stopped 525 11 e.isTrap := by
  have hread (address : UInt16) : Abides (MainBus.Calm request)
      (Wired.read address : EStateM _ (Wired Cpu MainBus) _) :=
    .onBus (MainBus.calms_read request address)
  have hvector : Abides (MainBus.Calm request)
      (readWord resetVector : EStateM _ (Wired Cpu MainBus) _) :=
    Leads.bind (hread _) fun _ => Leads.bind (hread _) fun _ => .pure fun _ h => h
  have hchip : KeepsView id (readWord resetVector : EStateM _ (Wired Cpu MainBus) _) :=
    .bind (.read _) fun _ => .bind (.read _) fun _ => .pure _
  refine .bind (M := fun _ w => w.bus.Whole) ?_ fun pc => ?_
  · intro w ⟨hsound, hrequest⟩
    have hbus := hvector w ⟨hsound.whole, hrequest⟩
    have hkept := hchip _ w rfl
    dsimp only [access, EStateM.adaptExcept]
    cases hx : (readWord resetVector : EStateM _ (Wired Cpu MainBus) _) w <;> rw [hx] at hbus hkept
    case ok => exact hbus.1
    case error e v =>
      have hchip : v.chip = w.chip := hkept
      refine ⟨⟨hbus.2.1, ?_, ?_, ?_⟩, fun ht => absurd ht ?_⟩
      · rw [hchip]
        exact hsound.waits
      · rw [hchip, hbus.2.2, ← hrequest]
        exact hsound.transfer
      · rw [hchip]
        exact hsound.fault
      · simp [CpuError.isTrap, hbus.1]
  · intro ⟨c, b⟩ hb
    have hseven : interruptCycles ≤ 525 ∧ interruptCycles ≤ 11 := by decide
    exact ⟨hb, hseven.1, fun _ => hseven.2, nofun⟩

end Cpu

namespace Console

def Safe (c : Console) : Prop := Sound 525 11 c.machine

def Refused (e : ConsoleError) (c : Console) : Prop := Stopped 525 11 e.isTrap c.machine

section
variable {α : Type} {most small : Nat}

theorem Safe.refused {c : Console} (h : c.Safe) {e : ConsoleError} (he : e.isTrap = false) :
    Refused e c :=
  ⟨h, fun ht => absurd ht (by simp [he])⟩

theorem leads_onMachine {P Q : Wired Cpu MainBus → Prop}
    {x : EStateM CpuError (Wired Cpu MainBus) α}
    (h : Leads P x (fun _ => Q) fun e => Stopped 525 11 e.isTrap) :
    Leads (fun c => P c.machine) (onMachine x) (fun _ c => Q c.machine) Refused := by
  intro ⟨machine, ready⟩ hp
  have hr := h machine hp
  dsimp only [onMachine]
  cases hx : x machine <;> rw [hx] at hr <;> exact hr

theorem leads_calm {request : Option UInt8} {x : EStateM BusError MainBus α}
    (h : MainBus.Calms request x) :
    Leads (fun c => Sound most small c.machine ∧ c.bus.peripherals.transfer = request) (onBus x)
      (fun _ c => Sound most small c.machine ∧ c.bus.peripherals.transfer = request)
      fun e c => e.isTrap = false ∧ Sound most small c.machine := by
  intro ⟨⟨chip, b⟩, ready⟩ ⟨hsound, hrequest⟩
  have hr := h b ⟨hsound.whole, hrequest⟩
  dsimp only [onBus, Wired.onBus]
  cases hx : x b <;> rw [hx] at hr
  case ok a v =>
    refine ⟨⟨hr.1, hsound.waits, fun ht => hsound.transfer ?_, hsound.fault⟩, hr.2⟩
    rwa [show v.peripherals.transfer = b.peripherals.transfer from hr.2.trans hrequest.symm] at ht
  case error e v =>
    refine ⟨hr.1, hr.2.1, hsound.waits, fun ht => hsound.transfer ?_, hsound.fault⟩
    rwa [show v.peripherals.transfer = b.peripherals.transfer from hr.2.2.trans hrequest.symm] at ht

theorem leads_onBus {x : EStateM BusError MainBus α} (h : ∀ request, MainBus.Calms request x)
    (hm : most ≤ 525) (hs : small ≤ 11) :
    Leads (fun c => Sound most small c.machine) (onBus x) (fun _ c => Sound most small c.machine)
      Refused := by
  intro c hc
  have hr := leads_calm (h c.bus.peripherals.transfer) c ⟨hc, rfl⟩
  cases hx : onBus x c <;> rw [hx] at hr
  case ok => exact hr.1
  case error => exact Safe.refused (hr.2.mono hm hs) hr.1

theorem sound_heed {c : Console} (h : Sound most small c.machine) (tick : Tick) :
    Sound most small (c.heed tick).machine := by
  obtain ⟨nmi, complete⟩ := tick
  cases nmi <;> cases complete <;> exact ⟨h.whole, h.waits, h.transfer, h.fault⟩

theorem leads_stepDot (hm : most ≤ 525) (hs : small ≤ 11) :
    Leads (fun c => Sound most small c.machine) stepDot (fun _ c => Sound most small c.machine)
      Refused :=
  .bind (leads_onBus MainBus.calms_stepDot hm hs) fun tick _ hc => sound_heed hc tick

end

theorem leads_serveTransfer :
    Leads (fun c => Sound 524 10 c.machine) serveTransfer (fun _ => Safe) Refused := by
  refine .bind (M := fun request c => c.Safe ∧ (request.isSome = true →
    Sound 10 10 c.machine ∧ c.bus.peripherals.transfer = none)) ?_ fun request => ?_
  · intro ⟨⟨chip, b⟩, ready⟩ h
    refine ⟨⟨h.whole, Nat.le_trans h.waits (by decide), nofun, h.fault⟩, fun ht => ?_⟩
    exact ⟨⟨h.whole, h.transfer ht, nofun, h.fault⟩, rfl⟩
  · cases request with
    | none => exact .pure fun _ h => h.1
    | some page =>
      refine .bind (M := fun _ c => Sound 10 10 c.machine ∧ c.bus.peripherals.transfer = none)
        ?_ fun _ => .bind_get fun c => ?_
      · exact (leads_calm (MainBus.calms_transferObjects none page)).mono (fun c h => h.2 rfl)
          (fun _ _ h => h) fun _ _ h => Safe.refused (h.2.mono (by decide) (by decide)) h.1
      · have hcycles : transferCycles + c.cpu.cycles % 2 ≤ 514 := by
          have := Nat.mod_lt c.cpu.cycles (show 0 < 2 by decide)
          unfold transferCycles
          omega
        exact leads_onMachine ((Cpu.leads_stall hcycles).mono (fun _ h => h) (fun _ _ h => h)
          fun _ _ h => h.elim)

theorem leads_step : Leads Safe step (fun _ => Safe) Refused :=
  .bind (leads_onMachine Cpu.leads_clock) fun _ =>
    .bind (leads_stepDot (by decide) (by decide)) fun _ =>
      .bind (leads_stepDot (by decide) (by decide)) fun _ =>
        .bind (leads_stepDot (by decide) (by decide)) fun _ => leads_serveTransfer

theorem leads_stepUntilReady (n : Nat) : Leads Safe (stepUntilReady n) (fun _ => Safe) Refused := by
  induction n with
  | zero => exact .pure fun _ h => h
  | succ n ih =>
    intro c hc
    rw [stepUntilReady_succ]
    cases c.frameReady with
    | true => exact hc
    | false => exact Leads.bind leads_step (fun _ => ih) c hc

theorem leads_runFrame : Leads Safe runFrame (fun _ => Safe) Refused :=
  .bind (M := fun _ => Safe) (fun _ h => h) fun _ => leads_stepUntilReady _

theorem leads_reset : Leads Safe reset (fun _ => Safe) Refused := by
  refine .bind (M := fun _ c => Sound 525 11 c.machine ∧ c.bus.peripherals.transfer = none) ?_
    fun _ => .bind (leads_onMachine Cpu.sound_reset) fun _ => ?_
  · intro c h
    exact ⟨⟨h.whole, h.waits, nofun, h.fault⟩, rfl⟩
  · intro c h
    exact h

theorem safe_hold {c : Console} (h : c.Safe) (pad : Nat) (buttons : UInt8) :
    (c.hold pad buttons).Safe := by
  unfold hold updateBus
  match pad with
  | 0 | 1 => exact ⟨h.whole, h.waits, h.transfer, h.fault⟩
  | n + 2 => exact ⟨h.whole, h.waits, h.transfer, h.fault⟩

/-- Each operation keeps the console safe, and meets no trap but the end of the cycle count. -/
theorem leads_run {op : HostOp} (h : op.requests = false) :
    Leads Safe op.run (fun _ => Safe) Refused := by
  cases op with
  | reset => exact .bind leads_reset fun _ => .pure fun _ h => h
  | step => exact .bind leads_step fun _ => .pure fun _ h => h
  | runFrame => exact .bind leads_runFrame fun _ => .pure fun _ h => h
  | hold pad buttons =>
    exact .bind (M := fun _ => Safe) (fun _ h => safe_hold h pad buttons) fun _ =>
      .pure fun _ h => h
  | read address =>
    exact .bind (leads_onBus (MainBus.calms_read · address) (by decide) (by decide)) fun _ =>
      .pure fun _ h => h
  | write address data =>
    have haddress : address ≠ Peripherals.transferAddress := by simpa [HostOp.requests] using h
    exact .bind (leads_onBus (MainBus.calms_write · haddress data) (by decide) (by decide))
      fun _ => .pure fun _ h => h
  | readVideo address =>
    exact .bind (leads_onBus (MainBus.calms_readVideo · address) (by decide) (by decide)) fun _ =>
      .pure fun _ h => h
  | stepDot =>
    exact .bind (leads_onBus MainBus.calms_stepDot (by decide) (by decide)) fun _ =>
      .pure fun _ h => h
  | transferObjects page =>
    exact .bind (leads_onBus (MainBus.calms_transferObjects · page) (by decide) (by decide))
      fun _ => .pure fun _ h => h

/-! No check refuses. -/

theorem same_onMachine {α : Type} {P : Wired Cpu MainBus → Prop}
    {x y : EStateM CpuError (Wired Cpu MainBus) α} (h : SameOn P x y) :
    SameOn (fun c => P c.machine) (onMachine x) (onMachine y) := by
  intro ⟨machine, ready⟩ hp
  dsimp only [onMachine]
  rw [h machine hp]

theorem same_onBus {α : Type} {P : MainBus → Prop} {x y : EStateM BusError MainBus α}
    (h : SameOn P x y) : SameOn (fun c => P c.bus) (onBus x) (onBus y) := by
  intro ⟨⟨chip, b⟩, ready⟩ hp
  dsimp only [onBus, Wired.onBus]
  rw [h b hp]

theorem checkedDot_eq : checkedDot = stepDot := by
  rw [checkedDot, Ppu.checkedStep_eq]
  rfl

theorem checkedServeTransfer_eq : checkedServeTransfer = serveTransfer := by
  unfold checkedServeTransfer serveTransfer
  refine bind_congr fun request => ?_
  cases request with
  | none => rfl
  | some page =>
    dsimp only
    rw [MainBus.checkedTransfer_eq]

theorem checkedStep_same : SameOn Safe checkedStep step := by
  have hclock : SameOn Safe (onMachine (@Cpu.checkedClock MainBus MainBus.checked))
      (onMachine Cpu.clock) := fun c h => same_onMachine Cpu.checkedClock_same c h.whole
  refine .bind hclock (leads_onMachine Cpu.leads_clock) fun _ => .of_eq ?_
  rw [checkedDot_eq, checkedServeTransfer_eq]

theorem checkedUntilReady_succ (n : Nat) (c : Console) : checkedUntilReady (n + 1) c =
    if c.frameReady then .ok () c else (checkedStep >>= fun _ => checkedUntilReady n) c := by
  change (if c.frameReady then pure () else checkedStep >>= fun _ => checkedUntilReady n :
    EStateM ConsoleError Console Unit) c = _
  cases c.frameReady <;> rfl

theorem checkedUntilReady_same (n : Nat) :
    SameOn Safe (checkedUntilReady n) (stepUntilReady n) := by
  induction n with
  | zero => exact .of_eq rfl
  | succ n ih =>
    intro c hc
    rw [checkedUntilReady_succ, stepUntilReady_succ]
    split
    · rfl
    · exact SameOn.bind checkedStep_same leads_step (fun _ => ih) c hc

theorem checkedFrame_same : SameOn Safe checkedFrame runFrame := by
  refine .bind (.of_eq rfl) (M := fun _ => Safe) (E := Refused) (fun c h => ?_) fun _ =>
    checkedUntilReady_same _
  exact h

theorem checkedReset_same : SameOn Safe checkedReset reset := by
  refine .bind (.of_eq rfl) (M := fun _ => Safe) (E := Refused) (fun c h => ?_) fun _ =>
    .bind (fun c h => same_onMachine Cpu.checkedReset_same c h.whole) (M := fun _ _ => True)
      (E := fun _ _ => True) (fun c _ => ?_) fun _ => .of_eq rfl
  · exact ⟨h.whole, h.waits, nofun, h.fault⟩
  · cases onMachine Cpu.reset c <;> trivial

theorem checkedRun_same (op : HostOp) : SameOn Safe op.checkedRun op.run := by
  have hany {α : Type} (x : EStateM ConsoleError Console α) :
      Leads Safe x (fun _ _ => True) fun _ _ => True := fun c _ => by cases x c <;> trivial
  cases op with
  | reset => exact .bind checkedReset_same (hany _) fun _ => .of_eq rfl
  | step => exact .bind checkedStep_same (hany _) fun _ => .of_eq rfl
  | runFrame => exact .bind checkedFrame_same (hany _) fun _ => .of_eq rfl
  | hold | readVideo => exact .of_eq rfl
  | read address => exact .of_eq (by rw [HostOp.checkedRun, MainBus.checkedRead_eq]; rfl)
  | write address data =>
    refine .bind (fun c h => ?_) (hany _) fun _ => .of_eq rfl
    exact same_onBus (MainBus.checkedWrite_same address data) c h.whole
  | stepDot => exact .of_eq (by rw [HostOp.checkedRun, Ppu.checkedStep_eq]; rfl)
  | transferObjects page =>
    exact .of_eq (by rw [HostOp.checkedRun, MainBus.checkedTransfer_eq]; rfl)

end Console

/-! ### Whole runs -/

abbrev Visit := EStateM.Result ConsoleError Console (Option UInt8)

def Visit.after : Visit → Console
  | .ok _ c => c
  | .error _ c => c

def visits (run : HostOp → EStateM ConsoleError Console (Option UInt8)) :
    List HostOp → Console → List Visit
  | [], _ => []
  | op :: ops, c => run op c :: visits run ops (Visit.after (run op c))

namespace Console

theorem safe_wire {cartridge : Cartridge} (h : cartridge.board.Whole) (journal : Journal) :
    (wire cartridge journal).Safe :=
  ⟨h, Nat.zero_le _, nofun, nofun⟩

theorem safe_after {op : HostOp} (h : op.requests = false) {c : Console} (hc : c.Safe) :
    (Visit.after (op.run c)).Safe := by
  have hr := leads_run h c hc
  cases hx : op.run c <;> rw [hx] at hr
  case ok => exact hr
  case error => exact hr.1

theorem checkedVisits_eq {ops : List HostOp} (hops : ∀ op ∈ ops, op.requests = false) {c : Console}
    (hc : c.Safe) : visits HostOp.checkedRun ops c = visits HostOp.run ops c := by
  induction ops generalizing c with
  | nil => rfl
  | cons op ops ih =>
    have hop := hops op List.mem_cons_self
    rw [visits, visits, checkedRun_same op c hc,
      ih (fun op' h => hops op' (List.mem_cons_of_mem _ h)) (safe_after hop hc)]

theorem refused_of_visits {ops : List HostOp} (hops : ∀ op ∈ ops, op.requests = false)
    {c c' : Console} (hc : c.Safe) {e : ConsoleError}
    (h : EStateM.Result.error e c' ∈ visits HostOp.run ops c) : Refused e c' := by
  induction ops generalizing c with
  | nil => cases h
  | cons op ops ih =>
    have hop := hops op List.mem_cons_self
    -- What an operation leaves is safe even where it was refused, so the rest goes on from there.
    rw [visits, List.mem_cons] at h
    rcases h with hlast | hlater
    · have hr := leads_run hop c hc
      rwa [← hlast] at hr
    · exact ih (fun op' h => hops op' (List.mem_cons_of_mem _ h)) (safe_after hop hc) hlater

/-- On a console around an accepted image whatever a host does, but for asking for an object
transfer itself, no check of an index, a sum or a difference ever refuses, and no access misses its
memory as long as the cycles can be counted. -/
theorem visits_meet_no_trap {image : Array UInt8} {path : Option String} {disk : Disk}
    {cartridge : Cartridge} {events : List CartridgeEvent}
    (himage : Cartridge.ofImage image path disk = .ok (cartridge, events)) (journal : Journal)
    (ops : List HostOp) (hops : ∀ op ∈ ops, op.requests = false) :
    visits HostOp.checkedRun ops (wire cartridge journal) =
      visits HostOp.run ops (wire cartridge journal) ∧
    ∀ e c, EStateM.Result.error e c ∈ visits HostOp.run ops (wire cartridge journal) →
      c.cpu.cycles + 1 < cycleLimit → e.isTrap = false := by
  have hsafe := safe_wire (Cartridge.whole_ofImage himage) journal
  refine ⟨checkedVisits_eq hops hsafe, fun e c h hcycles => ?_⟩
  have hrefused := (refused_of_visits hops hsafe h).2
  cases htrap : e.isTrap with
  | false => rfl
  | true => exact absurd (hrefused htrap) (Nat.not_le_of_lt hcycles)

end Console

/-! An image with one bank of program memory, no pattern memory, and nothing switched. -/

def plainHeader : Array UInt8 := #[0x4E, 0x45, 0x53, 0x1A, 1, 0, 0, 0, 0, 0, 0, 0, 0, 0, 0, 0]

def plainCartridge (program : Array UInt8) : Cartridge where
  header := ⟨1, 0, 0, 0, .horizontal, false, false, false⟩
  board := ⟨⟨program⟩, .ofRom #[], .nrom⟩
  work := .volatile Cartridge.blankWorkRam
  path := none

theorem parse_plain (program : Array UInt8) :
    Header.parse (plainHeader ++ program) =
      .ok ⟨1, 0, 0, 0, .horizontal, false, false, false⟩ := by
  have hsize : (plainHeader ++ program).size = 16 + program.size := by simp [plainHeader]
  have hmagic : (plainHeader ++ program).extract 0 4 = Header.magic := by
    rw [Array.extract_append]
    simp [plainHeader, Header.magic]
  have hget (i : Nat) (h : i < plainHeader.size) (hi : i < (plainHeader ++ program).size) :
      (plainHeader ++ program)[i] = plainHeader[i] := Array.getElem_append_left h
  unfold Header.parse
  rw [dif_neg (by omega), hmagic]
  simp only [hget 4 (by decide), hget 5 (by decide), hget 6 (by decide), hget 7 (by decide),
    hget 8 (by decide), hget 9 (by decide)]
  rfl

theorem ofImage_plain {program : Array UInt8} (h : program.size = 0x4000) (d : Disk) :
    Cartridge.ofImage (plainHeader ++ program) none d = .ok (plainCartridge program,
      [.loaded ⟨1, 0, 0, 0, .horizontal, false, false, false⟩ true]) := by
  have hsize : (plainHeader ++ program).size = 0x4010 := by simp [plainHeader, h]
  have hprogram : (plainHeader ++ program).extract 16 0x4010 = program := by
    rw [Array.extract_append]
    simp [plainHeader, h]
  have hpatterns : (plainHeader ++ program).extract 0x4010 0x4010 = #[] := by simp
  have hboard : Cartridge.boardOf ⟨1, 0, 0, 0, .horizontal, false, false, false⟩
      (plainHeader ++ program) = .ok ⟨⟨program⟩, .ofRom #[], .nrom⟩ := by
    have hstart : Header.programStart ⟨1, 0, 0, 0, .horizontal, false, false, false⟩ = 16 := rfl
    have hmid : Header.patternStart ⟨1, 0, 0, 0, .horizontal, false, false, false⟩ = 0x4010 := rfl
    have hend : Header.imageEnd ⟨1, 0, 0, 0, .horizontal, false, false, false⟩ = 0x4010 := rfl
    simp only [Cartridge.boardOf, hsize, hstart, hmid, hend, hprogram, hpatterns]
    rfl
  unfold Cartridge.ofImage
  rw [parse_plain]
  simp only [bind, Except.bind, hboard]
  rfl

/-- A host that resets, reads and writes where nothing answers, and copies a page that cannot be
read whole. -/
def roamingHost : List HostOp :=
  [.reset, .runFrame, .hold 7 0xFF, .read 0x4018, .write 0x401F 1, .readVideo 0xFFFF, .stepDot,
    .transferObjects 0x40, .step]

theorem Console.visits_meet_no_trap_roaming :
    Cartridge.ofImage (plainHeader ++ idleProgram) none {} =
      .ok (idleCartridge, [.loaded idleCartridge.header true]) ∧
    (∀ op ∈ roamingHost, op.requests = false) ∧
    visits HostOp.checkedRun roamingHost (wire idleCartridge {}) =
      visits HostOp.run roamingHost (wire idleCartridge {}) ∧
    ∀ e c, EStateM.Result.error e c ∈ visits HostOp.run roamingHost (wire idleCartridge {}) →
      c.cpu.cycles + 1 < cycleLimit → e.isTrap = false := by
  have hsize : idleProgram.size = 0x4000 := by simp only [idleProgram, Array.size_ofFn]
  have hhost : ∀ op ∈ roamingHost, op.requests = false := by
    simp only [roamingHost, List.forall_mem_cons]
    decide
  exact ⟨ofImage_plain hsize {}, hhost,
    visits_meet_no_trap (ofImage_plain hsize {}) {} roamingHost hhost⟩

end NesConsole
