import NesConsole.MainBus
/-! The console: a processor cycle and three dots of the picture at a time. Interrupts and
completed frames come back from the picture unit dot by dot; an object transfer holds the
processor up. -/
namespace NesConsole

structure Console where
  machine : Wired Cpu MainBus
  /-- Whether a frame was completed since this was last cleared. -/
  frameReady : Bool := false

namespace Console

/-- Cycles that an object transfer takes when it starts on an even cycle. -/
def transferCycles : Nat := 513

/-- The most steps from one completed frame to the next. -/
def longestFrame : Nat := (262 * 341 + 2) / 3

def wire (cartridge : Cartridge) (journal : Journal) : Console where
  machine := ⟨{}, .wire cartridge journal⟩

def cpu (c : Console) : Cpu := c.machine.chip
def bus (c : Console) : MainBus := c.machine.bus
def cartridge (c : Console) : Cartridge := c.bus.video.cartridge
def picture (c : Console) : Ppu := c.bus.picture
def journal (c : Console) : Journal := c.bus.video.journal

@[inline] def onMachine {α : Type} (act : EStateM CpuError (Wired Cpu MainBus) α) :
    EStateM ConsoleError Console α := fun ⟨machine, ready⟩ =>
  match act machine with
  | .ok a machine => .ok a ⟨machine, ready⟩
  | .error e machine => .error (.cpu e) ⟨machine, ready⟩

@[inline] def onBus {α : Type} (act : EStateM BusError MainBus α) :
    EStateM ConsoleError Console α := fun ⟨machine, ready⟩ =>
  match Wired.onBus act machine with
  | .ok a machine => .ok a ⟨machine, ready⟩
  | .error e machine => .error (.bus e) ⟨machine, ready⟩

def updateCpu (f : Cpu → Cpu) (c : Console) : Console :=
  { c with machine := { c.machine with chip := f c.machine.chip } }

def updateBus (f : MainBus → MainBus) (c : Console) : Console :=
  { c with machine := { c.machine with bus := f c.machine.bus } }

def heed (tick : Tick) (c : Console) : Console :=
  let c := if tick.nmi then c.updateCpu Cpu.nmi else c
  if tick.frameComplete then { c with frameReady := true } else c

def stepDot : EStateM ConsoleError Console Unit := do
  let tick ← onBus MainBus.stepDot
  modify (heed tick)

def serveTransfer : EStateM ConsoleError Console Unit := do
  match ← onBus MainBus.takeTransfer with
  | none => return
  | some page =>
    onBus (MainBus.transferObjects page)
    onMachine (Cpu.stall (transferCycles + (← get).cpu.cycles % 2))

def step : EStateM ConsoleError Console Unit := do
  onMachine Cpu.clock
  stepDot
  stepDot
  stepDot
  serveTransfer

def stepUntilReady : (n : Nat) → EStateM ConsoleError Console Unit
  | 0 => return
  | n + 1 => do
    if (← get).frameReady then return
    step
    stepUntilReady n

def runFrame : EStateM ConsoleError Console Unit := do
  modify fun c => { c with frameReady := false }
  stepUntilReady longestFrame

def runFrames : (n : Nat) → EStateM ConsoleError Console Unit
  | 0 => return
  | n + 1 => do
    runFrame
    runFrames n

def takeFrameReady (c : Console) : Bool × Console :=
  (c.frameReady, { c with frameReady := false })

def reset : EStateM ConsoleError Console Unit := do
  modify (updateBus MainBus.reset)
  onMachine Cpu.reset
  modify fun c => { c with frameReady := false }

def hold (pad : Nat) (buttons : UInt8) (c : Console) : Console :=
  c.updateBus fun bus =>
    match bus.peripherals.hold? pad buttons with
    | some peripherals => { bus with peripherals := peripherals }
    | none => bus.note [.noJoypad pad]

def persist (c : Console) : EStateM DiskError Disk Console := do
  let cartridge ← c.cartridge.persist
  return c.updateBus fun bus => { bus with video := { bus.video with cartridge := cartridge } }

def close (c : Console) (d : Disk) : Journal × Disk :=
  let (d, events) := c.cartridge.close d
  (c.journal.noteAll (events.map .cartridge), d)

end Console
end NesConsole
