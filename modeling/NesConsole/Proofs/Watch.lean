import NesConsole.Console
import NesConsole.Proofs.BusAgreement
import NesConsole.Proofs.Picture.Timing

/-! A console that is watched: what happens to its picture unit and at its instruction boundaries
goes to a log, and nothing else changes. -/
namespace NesConsole

inductive Entry where
  | nmi | irq | instruction
  deriving DecidableEq

inductive HostCall where
  | reset | step | runFrame
  | hold (pad : Nat) (buttons : UInt8)

namespace Console

def call : HostCall → EStateM ConsoleError Console Unit
  | .reset => reset
  | .step => step
  | .runFrame => runFrame
  | .hold pad buttons => modify (hold pad buttons)

def calls : List HostCall → EStateM ConsoleError Console Unit
  | [] => return
  | c :: cs => do
    call c
    calls cs

theorem stepUntilReady_succ (n : Nat) (c : Console) : stepUntilReady (n + 1) c =
    if c.frameReady then .ok () c else (step >>= fun _ => stepUntilReady n) c := by
  change (if c.frameReady then pure () else step >>= fun _ => stepUntilReady n :
    EStateM ConsoleError Console Unit) c = _
  cases c.frameReady <;> rfl

end Console

inductive Moment where
  /-- A register access, after which the picture unit was so. -/
  | touched (p : Ppu)
  | dot (before after : Ppu)
  | entered (entry : Entry)
  | reset (p : Ppu)

/-- A bus that logs what happens on it, latest first. -/
structure WatchedBus where
  bus : MainBus
  log : List Moment := []

namespace WatchedBus

def mark (m : Moment) (w : WatchedBus) : WatchedBus := { w with log := m :: w.log }

/-- Logs accesses to the registers of the picture unit, refused ones too. -/
def noting {α : Type} (address : UInt16) (act : EStateM BusError MainBus α) :
    EStateM BusError WatchedBus α := fun ⟨bus, log⟩ =>
  let note (bus : MainBus) : WatchedBus :=
    if mainMap.owner? address = some .picture then ⟨bus, .touched bus.picture :: log⟩
    else ⟨bus, log⟩
  match act bus with
  | .ok a bus => .ok a (note bus)
  | .error e bus => .error e (note bus)

def quietly {α : Type} (act : EStateM BusError MainBus α) : EStateM BusError WatchedBus α :=
  fun ⟨bus, log⟩ =>
  match act bus with
  | .ok a bus => .ok a ⟨bus, log⟩
  | .error e bus => .error e ⟨bus, log⟩

def read (address : UInt16) : EStateM BusError WatchedBus UInt8 :=
  noting address (MainBus.read address)

def write (address : UInt16) (data : UInt8) : EStateM BusError WatchedBus Unit :=
  noting address (MainBus.write address data)

instance : CpuBus WatchedBus where
  read := read
  write := write
  tracing w := CpuBus.tracing w.bus
  report event w := { w with bus := CpuBus.report event w.bus }

def stepDot : EStateM BusError WatchedBus Tick := fun ⟨bus, log⟩ =>
  match MainBus.stepDot bus with
  | .ok tick after => .ok tick ⟨after, .dot bus.picture after.picture :: log⟩
  | .error e after => .error e ⟨after, log⟩

def readBlock (address : UInt16) : (n : Nat) → EStateM BusError WatchedBus (List UInt8)
  | 0 => return []
  | n + 1 => do
    let byte ← read address
    return byte :: (← readBlock (address + 1) n)

def transferObjects (page : UInt8) : EStateM BusError WatchedBus Unit := do
  quietly (modify (MainBus.note [.objectTransfer (wordOf 0 page)]))
  let block := (← readBlock (wordOf 0 page) 256).toArray
  quietly (modify fun bus =>
    { bus with picture := bus.picture.writeObjects (Vector.ofFn fun i => block.getD i.val 0) })

def reset (w : WatchedBus) : WatchedBus :=
  mark (.reset w.bus.reset.picture) { w with bus := w.bus.reset }

end WatchedBus

namespace Cpu
section
variable {β : Type} [CpuBus β]

def boundary (c : Cpu) : Entry :=
  if c.nmiPending then .nmi
  else if c.irqLine && !c.registers.p.interruptDisable then .irq
  else .instruction

def enter : Entry → EStateM CpuError (Wired Cpu β) Unit
  | .nmi => do
    Wired.update fun c => { c with nmiPending := false }
    interrupt nmiVector
  | .irq => interrupt irqVector
  | .instruction => executeNext

theorem serve_eq_enter : (serve : EStateM CpuError (Wired Cpu β) Unit) =
    Wired.look boundary >>= enter := by
  funext ⟨c, b⟩
  change (if c.nmiPending then _ else if c.irqLine && !c.registers.p.interruptDisable then _
    else _ : EStateM CpuError (Wired Cpu β) Unit) ⟨c, b⟩ = enter c.boundary ⟨c, b⟩
  unfold boundary
  cases c.nmiPending with
  | true => rfl
  | false => cases c.irqLine && !c.registers.p.interruptDisable <;> rfl

theorem serve_apply (w : Wired Cpu β) : serve w = enter w.chip.boundary w := by
  rw [serve_eq_enter]
  exact bind_ok rfl

end

def watchedServe : EStateM CpuError (Wired Cpu WatchedBus) Unit := do
  let entry ← Wired.look boundary
  Wired.onBus (modify (WatchedBus.mark (.entered entry)))
  enter entry

theorem watchedServe_apply (c : Cpu) (b : WatchedBus) : watchedServe ⟨c, b⟩ =
    enter c.boundary ⟨c, b.mark (.entered c.boundary)⟩ := rfl

end Cpu

structure WatchedConsole where
  machine : Wired Cpu WatchedBus
  frameReady : Bool := false

namespace WatchedConsole

def wire (cartridge : Cartridge) (journal : Journal) : WatchedConsole where
  machine := ⟨{}, ⟨.wire cartridge journal, []⟩⟩

def console (c : WatchedConsole) : Console where
  machine := ⟨c.machine.chip, c.machine.bus.bus⟩
  frameReady := c.frameReady

def cpu (c : WatchedConsole) : Cpu := c.machine.chip
def picture (c : WatchedConsole) : Ppu := c.machine.bus.bus.picture
def log (c : WatchedConsole) : List Moment := c.machine.bus.log

def onMachine {α : Type} (act : EStateM CpuError (Wired Cpu WatchedBus) α) :
    EStateM ConsoleError WatchedConsole α := fun ⟨machine, ready⟩ =>
  match act machine with
  | .ok a machine => .ok a ⟨machine, ready⟩
  | .error e machine => .error (.cpu e) ⟨machine, ready⟩

def onBus {α : Type} (act : EStateM BusError WatchedBus α) :
    EStateM ConsoleError WatchedConsole α := fun ⟨machine, ready⟩ =>
  match Wired.onBus act machine with
  | .ok a machine => .ok a ⟨machine, ready⟩
  | .error e machine => .error (.bus e) ⟨machine, ready⟩

def heed (tick : Tick) (c : WatchedConsole) : WatchedConsole where
  machine := ⟨if tick.nmi then c.cpu.nmi else c.cpu, c.machine.bus⟩
  frameReady := c.frameReady || tick.frameComplete

def stepDot : EStateM ConsoleError WatchedConsole Unit := do
  let tick ← onBus WatchedBus.stepDot
  modify (heed tick)

def serveTransfer : EStateM ConsoleError WatchedConsole Unit := do
  match ← onBus (WatchedBus.quietly MainBus.takeTransfer) with
  | none => return
  | some page =>
    onBus (WatchedBus.transferObjects page)
    onMachine (Cpu.stall (Console.transferCycles + (← get).cpu.cycles % 2))

def step : EStateM ConsoleError WatchedConsole Unit := do
  onMachine (Cpu.clockBy Cpu.watchedServe)
  stepDot
  stepDot
  stepDot
  serveTransfer

def stepUntilReady : (n : Nat) → EStateM ConsoleError WatchedConsole Unit
  | 0 => return
  | n + 1 => do
    if (← get).frameReady then return
    step
    stepUntilReady n

def runFrame : EStateM ConsoleError WatchedConsole Unit := do
  modify fun c => { c with frameReady := false }
  stepUntilReady Console.longestFrame

def reset : EStateM ConsoleError WatchedConsole Unit := do
  modify fun c => { c with machine := { c.machine with bus := c.machine.bus.reset } }
  onMachine Cpu.reset
  modify fun c => { c with frameReady := false }

def hold (pad : Nat) (buttons : UInt8) (c : WatchedConsole) : WatchedConsole :=
  { c with machine :=
    { c.machine with bus :=
      { c.machine.bus with bus := (c.console.hold pad buttons).bus } } }

theorem picture_hold (pad : Nat) (buttons : UInt8) (c : WatchedConsole) :
    (c.hold pad buttons).picture = c.picture := by
  change (c.console.hold pad buttons).bus.picture = c.console.bus.picture
  simp only [Console.hold, Console.updateBus, Console.bus]
  split <;> rfl

def call : HostCall → EStateM ConsoleError WatchedConsole Unit
  | .reset => reset
  | .step => step
  | .runFrame => runFrame
  | .hold pad buttons => modify (hold pad buttons)

def calls : List HostCall → EStateM ConsoleError WatchedConsole Unit
  | [] => return
  | c :: cs => do
    call c
    calls cs

/-! Without the log everything is as it was. -/

def Erases (w : WatchedBus) (b : MainBus) : Prop := w.bus = b

def Shows (c : WatchedConsole) (d : Console) : Prop := c.console = d

section
variable {α : Type}

theorem agree_noting (address : UInt16) (act : EStateM BusError MainBus α) :
    Agree Erases (WatchedBus.noting address act) act := by
  intro ⟨b, log⟩ _ he
  cases he
  dsimp only [WatchedBus.noting]
  cases act b with
  | ok a b' => exact ⟨rfl, by unfold Erases; split <;> rfl⟩
  | error e b' => exact ⟨rfl, by unfold Erases; split <;> rfl⟩

theorem agree_quietly (act : EStateM BusError MainBus α) :
    Agree Erases (WatchedBus.quietly act) act := by
  intro ⟨b, log⟩ _ he
  cases he
  dsimp only [WatchedBus.quietly]
  cases act b <;> exact ⟨rfl, rfl⟩

instance : CpuBusAgreement Erases where
  read address := agree_noting address _
  write address _ := agree_noting address _
  tracing _ _ h := congrArg CpuBus.tracing h
  report event _ _ h := congrArg (CpuBus.report event) h

theorem agree_stepDot_bus : Agree Erases WatchedBus.stepDot MainBus.stepDot := by
  intro ⟨b, log⟩ _ he
  cases he
  dsimp only [WatchedBus.stepDot]
  cases MainBus.stepDot b <;> exact ⟨rfl, rfl⟩

theorem agree_readBlock (n : Nat) (address : UInt16) :
    Agree Erases (WatchedBus.readBlock address n) (MainBus.readBlock address n) := by
  induction n generalizing address with
  | zero => exact .pure []
  | succ n ih => exact .bind (agree_noting address _) fun _ => .bind (ih _) fun _ => .pure _

theorem agree_transferObjects (page : UInt8) :
    Agree Erases (WatchedBus.transferObjects page) (MainBus.transferObjects page) :=
  .bind (agree_quietly _) fun _ => .bind (agree_readBlock 256 _) fun _ => agree_quietly _

theorem agree_watchedServe : Agree (SameChip Erases) Cpu.watchedServe Cpu.serve := by
  rw [Cpu.serve_eq_enter]
  refine .bind (.look _) fun entry => ?_
  have henter : Agree (SameChip Erases) (Cpu.enter entry) (Cpu.enter entry) := by
    cases entry with
    | nmi => exact .bind (.update _) fun _ => .interrupt _
    | irq => exact .interrupt _
    | instruction => exact .executeNext
  intro ⟨c, w⟩ ⟨_, b⟩ he
  obtain ⟨rfl, hb⟩ := he
  exact henter ⟨c, w.mark (.entered entry)⟩ ⟨c, b⟩ ⟨rfl, hb⟩

theorem agree_onMachine {x : EStateM CpuError (Wired Cpu WatchedBus) α}
    {y : EStateM CpuError (Wired Cpu MainBus) α} (h : Agree (SameChip Erases) x y) :
    Agree Shows (onMachine x) (Console.onMachine y) := by
  intro ⟨⟨chip, w⟩, ready⟩ _ he
  cases he
  have hr := h ⟨chip, w⟩ ⟨chip, w.bus⟩ ⟨rfl, rfl⟩
  dsimp only [onMachine, console, Console.onMachine]
  cases hx : x ⟨chip, w⟩ <;> cases hy : y ⟨chip, w.bus⟩ <;> rw [hx, hy] at hr
  case ok.ok a v b u =>
    obtain ⟨rfl, hchip, hbus⟩ := hr
    exact ⟨rfl, by rw [Shows, console, hchip, hbus]⟩
  case error.error e v f u =>
    obtain ⟨rfl, hchip, hbus⟩ := hr
    exact ⟨rfl, by rw [Shows, console, hchip, hbus]⟩
  all_goals exact hr.elim

theorem agree_onBus {x : EStateM BusError WatchedBus α} {y : EStateM BusError MainBus α}
    (h : Agree Erases x y) : Agree Shows (onBus x) (Console.onBus y) := by
  intro ⟨⟨chip, w⟩, ready⟩ _ he
  cases he
  have hr := h w w.bus rfl
  dsimp only [onBus, console, Console.onBus, Wired.onBus]
  cases hx : x w <;> cases hy : y w.bus <;> rw [hx, hy] at hr
  case ok.ok a v b u =>
    obtain ⟨rfl, rfl⟩ := hr
    exact ⟨rfl, rfl⟩
  case error.error e v f u =>
    obtain ⟨rfl, rfl⟩ := hr
    exact ⟨rfl, rfl⟩
  all_goals exact hr.elim

end

theorem console_heed (tick : Tick) (c : WatchedConsole) :
    (c.heed tick).console = c.console.heed tick := by
  obtain ⟨nmi, complete⟩ := tick
  obtain ⟨machine, ready⟩ := c
  cases nmi <;> cases complete <;> cases ready <;> rfl

theorem agree_stepDot : Agree Shows stepDot Console.stepDot := by
  refine .bind (agree_onBus agree_stepDot_bus) fun tick => ?_
  intro c _ he
  cases he
  exact ⟨rfl, console_heed tick c⟩

theorem agree_serveTransfer : Agree Shows serveTransfer Console.serveTransfer := by
  refine .bind (agree_onBus (agree_quietly _)) fun request => ?_
  cases request with
  | none => exact .pure ()
  | some page =>
    refine .bind (agree_onBus (agree_transferObjects page)) fun _ => .bind_get ?_
    intro c _ he
    cases he
    exact agree_onMachine (.stall _) c _ rfl

theorem agree_step : Agree Shows step Console.step := by
  have hclock : Agree (SameChip Erases) (Cpu.clockBy Cpu.watchedServe) Cpu.clock := by
    rw [Cpu.clock_eq_clockBy]
    exact .clockBy agree_watchedServe
  exact .bind (agree_onMachine hclock) fun _ => .bind agree_stepDot fun _ =>
    .bind agree_stepDot fun _ => .bind agree_stepDot fun _ => agree_serveTransfer

theorem stepUntilReady_succ (n : Nat) (c : WatchedConsole) : stepUntilReady (n + 1) c =
    if c.frameReady then .ok () c else (step >>= fun _ => stepUntilReady n) c := by
  change (if c.frameReady then pure () else step >>= fun _ => stepUntilReady n :
    EStateM ConsoleError WatchedConsole Unit) c = _
  cases c.frameReady <;> rfl

theorem agree_stepUntilReady (n : Nat) :
    Agree Shows (stepUntilReady n) (Console.stepUntilReady n) := by
  induction n with
  | zero => exact .pure ()
  | succ n ih =>
    intro c _ he
    cases he
    rw [stepUntilReady_succ, Console.stepUntilReady_succ]
    change Alike _ _ (if c.frameReady then _ else _)
    cases c.frameReady with
    | true => exact ⟨rfl, rfl⟩
    | false => exact Agree.bind agree_step (fun _ => ih) c _ rfl

theorem agree_runFrame : Agree Shows runFrame Console.runFrame := by
  refine .bind ?_ fun _ => agree_stepUntilReady _
  intro c _ he
  cases he
  exact ⟨rfl, rfl⟩

theorem agree_reset : Agree Shows reset Console.reset := by
  refine .bind ?_ fun _ => .bind (agree_onMachine .reset) fun _ => ?_
  · intro c _ he
    cases he
    exact ⟨rfl, rfl⟩
  · intro c _ he
    cases he
    exact ⟨rfl, rfl⟩

theorem agree_call (c : HostCall) : Agree Shows (call c) (Console.call c) := by
  cases c with
  | reset => exact agree_reset
  | step => exact agree_step
  | runFrame => exact agree_runFrame
  | hold pad buttons =>
    intro c _ he
    cases he
    exact ⟨rfl, rfl⟩

theorem agree_calls (cs : List HostCall) : Agree Shows (calls cs) (Console.calls cs) := by
  induction cs with
  | nil => exact .pure ()
  | cons c cs ih => exact .bind (agree_call c) fun _ => ih

end WatchedConsole
end NesConsole
